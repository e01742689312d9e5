import Schemata.Proofs.Declared

/-!
# Where arriving databases go

Databases that are merged into others bring their tables along. Each of them has a home: the database of
that name takes the tables, behind its own ones, and without such a database the arriving one is appended.
`merged` says what becomes of all of them at once, and `Admissible` when no two tables of a database clash.
A merge that goes from one to the next comes to the same (`merged_append`, `admissible_append`,
`gives_forEach_takesIn`).
-/

namespace Schemata

open Change

/-- Where names are distinct, replacing an item changes the one of its name. -/
theorem set_eq_map {α κ : Type} [DecidableEq κ] {key : α → κ} {l : List α} (hl : (l.map key).Nodup) {pos : Nat} {a : α}
    (ha : l[pos]? = some a) (f : α → α) : l.set pos (f a) = l.map fun b => if key b = key a then f b else b := by
  obtain ⟨hpos, rfl⟩ := List.getElem?_eq_some_iff.mp ha
  refine List.ext_getElem (by simp) fun j hset hmap => ?_
  have hj : j < l.length := by simpa using hmap
  have hkey : key l[j] = key l[pos] ↔ j = pos := by
    have hinj := @List.Nodup.getElem_inj_iff _ _ hl j (by simpa using hj) pos (by simpa using hpos)
    simpa using hinj
  rw [List.getElem_set, List.getElem_map]
  by_cases h : j = pos
  · subst h
    simp
  · rw [if_neg (Ne.symm h), if_neg (mt hkey.mp h)]

namespace Database
variable {d e : Database} {ts us : List Table}

/-- The database with more tables behind its own. -/
def withTables (d : Database) (ts : List Table) : Database :=
  { d with tables := d.tables ++ ts }

@[simp] theorem name_withTables (d : Database) (ts : List Table) : (d.withTables ts).name = d.name := rfl
@[simp] theorem tables_withTables (d : Database) (ts : List Table) : (d.withTables ts).tables = d.tables ++ ts := rfl

@[simp] theorem tableNames_withTables (d : Database) (ts : List Table) :
    (d.withTables ts).tableNames = d.tableNames ++ ts.map (·.name) :=
  List.map_append

@[simp] theorem withTables_nil (d : Database) : d.withTables [] = d := by
  simp [withTables]

@[simp] theorem withTables_withTables (d : Database) (ts us : List Table) :
    (d.withTables ts).withTables us = d.withTables (ts ++ us) := by
  simp [withTables]

/-- Tables of distinct names, none of which the database has. -/
def Admits (d : Database) (ts : List Table) : Prop :=
  (ts.map (·.name)).Nodup ∧ ∀ t ∈ ts, t.name ∉ d.tableNames

@[simp] theorem admits_nil (d : Database) : d.Admits [] :=
  ⟨List.nodup_nil, by simp⟩

theorem admits_append : d.Admits (ts ++ us) ↔ d.Admits ts ∧ (d.withTables ts).Admits us := by
  unfold Admits
  rw [List.forall_mem_append, List.map_append, List.nodup_append', List.disjoint_right, tableNames_withTables]
  simp only [List.forall_mem_map, List.mem_append, not_or]
  constructor
  · rintro ⟨⟨hts, hus, hapart⟩, hdts, hdus⟩
    exact ⟨⟨hts, hdts⟩, hus, fun u hu => ⟨hdus u hu, hapart u hu⟩⟩
  · rintro ⟨⟨hts, hdts⟩, hus, hdus⟩
    exact ⟨⟨hts, hus, fun u hu => (hdus u hu).2⟩, hdts, fun u hu => (hdus u hu).1⟩

theorem Admits.perm (h : ts.Perm us) (hts : d.Admits ts) : d.Admits us :=
  ⟨(h.map _).nodup_iff.mp hts.1, fun u hu => hts.2 u (h.mem_iff.mpr hu)⟩

theorem Admits.nodup_withTables (h : d.Admits ts) (hd : d.tableNames.Nodup) : (d.withTables ts).tableNames.Nodup := by
  rw [tableNames_withTables, List.nodup_append', List.disjoint_right, List.forall_mem_map]
  exact ⟨hd, h⟩

theorem addTable_iff_admits {t : Table} : d.addTable t = .ok e ↔ d.Admits [t] ∧ e = d.withTables [t] := by
  rw [addTable_eq_ok]
  have hfree : d.hasTable t.name = false ↔ d.Admits [t] := by
    simp [Admits, hasTable, tableNames]
  rw [hfree]
  rfl

end Database

/-! ### Adding tables to one database -/

theorem Schema.gives_addTablesAt {pos : Nat} {ts : List Table} {ds es : List Database} {d : Database}
    (hd : ds[pos]? = some d) :
    (Schema.addTablesAt pos ts).Gives ds () es ↔ d.Admits ts ∧ es = ds.set pos (d.withTables ts) := by
  induction ts generalizing ds d es with
  | nil =>
    obtain ⟨hlt, rfl⟩ := List.getElem?_eq_some_iff.mp hd
    simp [Schema.addTablesAt]
  | cons t ts ih =>
    have hlt := (List.getElem?_eq_some_iff.mp hd).1
    have hrest : ∀ es', (Schema.addTablesAt pos ts).Gives (ds.set pos (d.withTables [t])) () es' ↔
        (d.withTables [t]).Admits ts ∧ es' = ds.set pos (d.withTables (t :: ts)) := fun es' => by
      rw [ih (List.getElem?_set_self hlt), List.set_set]
      simp
    have hcons : d.Admits ([t] ++ ts) ↔ d.Admits [t] ∧ (d.withTables [t]).Admits ts := Database.admits_append
    rw [Schema.addTablesAt, gives_forEach_cons, ← List.singleton_append, hcons, and_assoc, List.singleton_append,
      ← hrest]
    simp only [gives_atPosition, hd, gives_attempt, Database.addTable_iff_admits]
    constructor
    · rintro ⟨v, ⟨hnone, -⟩ | ⟨d', e, hd', ⟨hadmits, rfl⟩, rfl⟩, hes⟩
      · cases hnone
      · cases hd'
        exact ⟨hadmits, hes⟩
    · rintro ⟨hadmits, hes⟩
      exact ⟨_, Or.inr ⟨d, _, rfl, ⟨hadmits, rfl⟩, rfl⟩, hes⟩

/-! ### All arrivals at once -/

section Arrivals
variable {home : String → String} {ds es fs : List Database} {d e f : Database}

/-- The tables of the arriving databases whose home is the database of a name. -/
def arriving (home : String → String) (es : List Database) (name : String) : List Table :=
  (es.filter fun e => home e.name = name).flatMap (·.tables)

/-- The databases with the tables that arrive at each, followed by the arriving databases without a home. -/
def merged (home : String → String) (ds es : List Database) : List Database :=
  ds.map (fun d => d.withTables (arriving home es d.name)) ++ es.filter fun e => home e.name ∉ ds.map (·.name)

/-- Every database admits the tables that arrive at it, and a database that is appended has tables of distinct
    names. -/
structure Admissible (home : String → String) (ds es : List Database) : Prop where
  tables : ∀ d ∈ ds, d.Admits (arriving home es d.name)
  appended : ∀ e ∈ es, home e.name ∉ ds.map (·.name) → e.tableNames.Nodup

@[simp] theorem arriving_nil (home : String → String) (name : String) : arriving home [] name = [] := rfl

theorem arriving_singleton (home : String → String) (e : Database) (name : String) :
    arriving home [e] name = if home e.name = name then e.tables else [] := by
  unfold arriving
  split <;> simp_all

theorem arriving_append (home : String → String) (es fs : List Database) (name : String) :
    arriving home (es ++ fs) name = arriving home es name ++ arriving home fs name := by
  rw [arriving, List.filter_append, List.flatMap_append, ← arriving, ← arriving]

theorem mem_arriving {t : Table} {name : String} :
    t ∈ arriving home es name ↔ ∃ e ∈ es, home e.name = name ∧ t ∈ e.tables := by
  simp [arriving, and_assoc]

theorem arriving_eq_nil {name : String} (h : ∀ e ∈ es, home e.name ≠ name) : arriving home es name = [] := by
  rw [arriving, List.filter_eq_nil_iff.mpr fun e he => by simpa using h e he]
  rfl

theorem arriving_perm (h : es.Perm fs) (name : String) : (arriving home es name).Perm (arriving home fs name) :=
  (h.filter _).flatMap_right _

theorem Admissible.perm (h : es.Perm fs) (hes : Admissible home ds es) : Admissible home ds fs where
  tables d hd := (hes.tables d hd).perm (arriving_perm h d.name)
  appended f hf := hes.appended f (h.mem_iff.mpr hf)

theorem mem_appended :
    e ∈ es.filter (fun e => home e.name ∉ ds.map (·.name)) ↔ e ∈ es ∧ home e.name ∉ ds.map (·.name) := by
  rw [List.mem_filter, decide_eq_true_iff]

theorem mem_merged : f ∈ merged home ds es ↔
    (∃ d ∈ ds, d.withTables (arriving home es d.name) = f) ∨ f ∈ es ∧ home f.name ∉ ds.map (·.name) := by
  rw [merged, List.mem_append, List.mem_map, mem_appended]

theorem names_merged (home : String → String) (ds es : List Database) :
    (merged home ds es).map (·.name) =
      ds.map (·.name) ++ (es.filter fun e => home e.name ∉ ds.map (·.name)).map (·.name) := by
  simp [merged]

@[simp] theorem merged_nil (home : String → String) (ds : List Database) : merged home ds [] = ds := by
  simp [merged]

@[simp] theorem admissible_nil (home : String → String) (ds : List Database) : Admissible home ds [] :=
  ⟨fun d _ => d.admits_nil, by simp⟩

/-! ### One arrival -/

theorem merged_singleton_of_mem (hds : (ds.map (·.name)).Nodup) {pos : Nat} (hd : ds[pos]? = some d)
    (hhome : home e.name = d.name) : merged home ds [e] = ds.set pos (d.withTables e.tables) := by
  have hmem : home e.name ∈ ds.map (·.name) := hhome ▸ List.mem_map_of_mem (List.mem_of_getElem? hd)
  rw [merged, List.filter_cons_of_neg (by simpa using hmem), List.filter_nil, List.append_nil,
    set_eq_map hds hd fun d => d.withTables e.tables]
  refine List.map_congr_left fun f _ => ?_
  rw [arriving_singleton, hhome]
  by_cases hf : f.name = d.name
  · rw [if_pos hf, if_pos hf.symm]
  · rw [if_neg hf, if_neg (Ne.symm hf), Database.withTables_nil]

theorem admissible_singleton_of_mem (hds : (ds.map (·.name)).Nodup) (hd : d ∈ ds) (hhome : home e.name = d.name) :
    Admissible home ds [e] ↔ d.Admits e.tables := by
  constructor
  · rintro ⟨htables, -⟩
    simpa [arriving_singleton, hhome] using htables d hd
  · intro hadmits
    refine ⟨fun f hf => ?_, fun f hf hnot => ?_⟩
    · rw [arriving_singleton, hhome]
      split
      · next heq => exact List.inj_on_of_nodup_map hds hd hf heq ▸ hadmits
      · exact f.admits_nil
    · cases List.mem_singleton.mp hf
      exact absurd (hhome ▸ List.mem_map_of_mem hd) hnot

/-- Nothing arrives at the other databases. -/
theorem arriving_singleton_of_not_mem (he : home e.name ∉ ds.map (·.name)) (hd : d ∈ ds) :
    arriving home [e] d.name = [] := by
  rw [arriving_singleton, if_neg]
  intro heq
  exact he (heq ▸ List.mem_map_of_mem hd)

theorem merged_singleton_of_not_mem (he : home e.name ∉ ds.map (·.name)) : merged home ds [e] = ds ++ [e] := by
  have hsame : ∀ d ∈ ds, d.withTables (arriving home [e] d.name) = d := fun d hd => by
    rw [arriving_singleton_of_not_mem he hd, Database.withTables_nil]
  rw [merged, List.filter_cons_of_pos (by simpa using he), List.map_congr_left hsame, List.map_id', List.filter_nil]

theorem admissible_singleton_of_not_mem (he : home e.name ∉ ds.map (·.name)) :
    Admissible home ds [e] ↔ e.tableNames.Nodup := by
  constructor
  · exact fun h => h.appended e List.mem_cons_self he
  · intro hnodup
    refine ⟨fun d hd => ?_, fun f hf _ => List.mem_singleton.mp hf ▸ hnodup⟩
    rw [arriving_singleton_of_not_mem he hd]
    exact d.admits_nil

/-! ### One arrival after another -/

/-- Every home is the name of one of the databases, or it is the arriving name itself. -/
def Homes (home : String → String) (ds : List Database) : Prop :=
  ∀ name, home name ∈ ds.map (·.name) ∨ home name = name

theorem Homes.merged (h : Homes home ds) (es : List Database) : Homes home (merged home ds es) := fun name => by
  rw [names_merged, List.mem_append]
  exact (h name).imp_left Or.inl

/-- Nothing else has its home at a database that is appended. -/
theorem Homes.ne_of_not_mem (h : Homes home ds) (he : home e.name ∉ ds.map (·.name)) (hne : f.name ≠ e.name) :
    home f.name ≠ e.name := by
  have hself : home e.name = e.name := (h e.name).resolve_left he
  intro heq
  rcases h f.name with hmem | hfself
  · rw [hself, ← heq] at he
    exact he hmem
  · exact hne (hfself.symm.trans heq)

/-- The names of all databases stay distinct. -/
theorem nodup_names_merged (h : Homes home ds) (hds : (ds.map (·.name)).Nodup) (hes : (es.map (·.name)).Nodup) :
    ((merged home ds es).map (·.name)).Nodup := by
  rw [names_merged, List.nodup_append']
  refine ⟨hds, hes.sublist (List.filter_sublist.map _), List.disjoint_right.mpr ?_⟩
  rw [List.forall_mem_map]
  intro e he hmem
  exact (mem_appended.mp he).2 ((h e.name).elim id fun heq => by rwa [heq])

/-- A database that was appended is no home for what arrives later. -/
theorem not_mem_names_merged (h : Homes home ds) (hapart : ∀ e ∈ es, f.name ≠ e.name) :
    home f.name ∉ (merged home ds es).map (·.name) ↔ home f.name ∉ ds.map (·.name) := by
  rw [names_merged, List.mem_append, not_or, and_iff_left_iff_imp]
  intro _ hmem
  obtain ⟨e, he, heq⟩ := List.mem_map.mp hmem
  obtain ⟨he, hnot⟩ := mem_appended.mp he
  exact h.ne_of_not_mem hnot (hapart e he) heq.symm

theorem merged_append (h : Homes home ds) (hapart : ∀ f ∈ fs, ∀ e ∈ es, f.name ≠ e.name) :
    merged home (merged home ds es) fs = merged home ds (es ++ fs) := by
  have happended : ∀ e ∈ es.filter (fun e => home e.name ∉ ds.map (·.name)),
      e.withTables (arriving home fs e.name) = e := fun e he => by
    obtain ⟨he, hnot⟩ := mem_appended.mp he
    rw [arriving_eq_nil fun f hf => h.ne_of_not_mem hnot (hapart f hf e he), Database.withTables_nil]
  have hfilter : fs.filter (fun f => home f.name ∉ (merged home ds es).map (·.name)) =
      fs.filter fun f => home f.name ∉ ds.map (·.name) :=
    List.filter_congr fun f hf => by rw [decide_eq_decide, not_mem_names_merged h (hapart f hf)]
  rw [merged, hfilter, merged, List.map_append, List.map_congr_left happended, List.map_id', List.map_map, merged,
    List.filter_append, List.append_assoc]
  refine congrArg (· ++ _) (List.map_congr_left fun d _ => ?_)
  simp [arriving_append]

theorem admissible_append (h : Homes home ds) (hapart : ∀ f ∈ fs, ∀ e ∈ es, f.name ≠ e.name) :
    Admissible home ds (es ++ fs) ↔ Admissible home ds es ∧ Admissible home (merged home ds es) fs := by
  have hsplit : ∀ d : Database, d.Admits (arriving home (es ++ fs) d.name) ↔
      d.Admits (arriving home es d.name) ∧
        (d.withTables (arriving home es d.name)).Admits (arriving home fs d.name) := fun d => by
    rw [arriving_append, Database.admits_append]
  constructor
  · rintro ⟨htables, happended⟩
    refine ⟨⟨fun d hd => ((hsplit d).mp (htables d hd)).1, fun e he => happended e (List.mem_append_left _ he)⟩, ?_, ?_⟩
    · intro d hd
      rcases mem_merged.mp hd with ⟨c, hc, rfl⟩ | ⟨hd, hnot⟩
      · exact ((hsplit c).mp (htables c hc)).2
      · -- What was appended gets nothing from `fs`, whose names are others.
        rw [arriving_eq_nil fun f hf => h.ne_of_not_mem hnot (hapart f hf d hd)]
        exact d.admits_nil
    · intro f hf hnot
      exact happended f (List.mem_append_right _ hf) ((not_mem_names_merged h (hapart f hf)).mp hnot)
  · rintro ⟨hfirst, hrest⟩
    refine ⟨fun d hd => (hsplit d).mpr ⟨hfirst.tables d hd, ?_⟩, fun f hf hnot => ?_⟩
    · exact hrest.tables _ (mem_merged.mpr (.inl ⟨d, hd, rfl⟩))
    · rcases List.mem_append.mp hf with hf | hf
      · exact hfirst.appended f hf hnot
      · exact hrest.appended f hf ((not_mem_names_merged h (hapart f hf)).mpr hnot)

/-! ### Changes that take databases in -/

/-- The database where an arriving one has its home is found by its name. -/
theorem findIdx?_home (name : String) (ds : List Database) :
    (∃ pos d, ds.findIdx? (·.name == name) = some pos ∧ ds[pos]? = some d ∧ name = d.name) ∨
      (ds.findIdx? (·.name == name) = none ∧ name ∉ ds.map (·.name)) := by
  cases h : ds.findIdx? (·.name == name) with
  | some pos =>
    obtain ⟨hpos, hname, -⟩ := List.findIdx?_eq_some_iff_getElem.mp h
    exact .inl ⟨pos, ds[pos], rfl, List.getElem?_eq_getElem hpos, (eq_of_beq hname).symm⟩
  | none =>
    refine .inr ⟨rfl, fun hmem => ?_⟩
    obtain ⟨d, hd, hname⟩ := List.mem_map.mp hmem
    simpa [hname] using List.findIdx?_eq_none_iff.mp h d hd

/-- The change takes one database in, as it is needed to take several in one after another. -/
def TakesIn (c : Edit (List Database) Unit) (home : String → String) (ds : List Database) (e : Database) : Prop :=
  ∀ us, c.Gives ds () us ↔ Admissible home ds [e] ∧ us = merged home ds [e]

/-- Databases that are taken in one after another, each where `I` holds, arrive as if all of them came at once. -/
theorem gives_forEach_takesIn {α : Type} {c : α → Edit (List Database) Unit} {arrival : α → Database}
    {I : List Database → Prop} {l : List α} {us : List Database}
    (step : ∀ a ∈ l, ∀ ds, I ds → TakesIn (c a) home ds (arrival a) ∧ I (merged home ds [arrival a]))
    (hl : ((l.map arrival).map (·.name)).Nodup) (homes : Homes home ds) (hds : I ds) :
    (forEach c l).Gives ds () us ↔ Admissible home ds (l.map arrival) ∧ us = merged home ds (l.map arrival) := by
  -- `home` stays the one that was fixed at first, while the databases grow; `I` says what `step` needs of them.
  induction l generalizing ds with
  | nil => simp
  | cons a l ih =>
    obtain ⟨hfirst, hkept⟩ := step a List.mem_cons_self ds hds
    obtain ⟨hnew, hl⟩ := List.nodup_cons.mp hl
    have hapart : ∀ f ∈ l.map arrival, ∀ e ∈ [arrival a], f.name ≠ e.name := fun f hf e he heq => by
      cases List.mem_singleton.mp he
      exact hnew (List.mem_map.mpr ⟨f, hf, heq⟩)
    have hrest := ih (fun b hb => step b (List.mem_cons_of_mem _ hb)) hl (homes.merged _) hkept
    have hcons : (a :: l).map arrival = [arrival a] ++ l.map arrival := rfl
    rw [hcons, admissible_append homes hapart, ← merged_append homes hapart, and_assoc, ← hrest, gives_forEach_cons]
    constructor
    · rintro ⟨v, hv, hus⟩
      obtain ⟨hadmissible, rfl⟩ := (hfirst v).mp hv
      exact ⟨hadmissible, hus⟩
    · rintro ⟨hadmissible, hus⟩
      exact ⟨_, (hfirst _).mpr ⟨hadmissible, rfl⟩, hus⟩

end Arrivals

/-- Databases that are given by their names and those of their tables. -/
def Schema.ofNames (ds : List (String × List String)) : Schema where
  databases := ds.map fun d => { name := d.1, tables := d.2.map fun table => { name := table } }

end Schemata
