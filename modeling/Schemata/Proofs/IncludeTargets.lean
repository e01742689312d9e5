import Schemata.Proofs.Arrivals

/-!
# Where included tables go

The tables of an included database go to the database of its name, or to the only database that there is.
That is decided anew for each included database, by the databases that there are then: a schema with
databases keeps deciding as it did at first, whereas a schema without any takes the first included database
in and has from then on an only database, which gets the tables of all the others.
-/

namespace Schemata

open Change

section Home
variable {ds : List Database} {d : Database} {name : String}

/-- The name of the database for the tables of an included one: that of the only database, else its own name. -/
def homeName (ds : List Database) (name : String) : String :=
  match ds with
  | [d] => d.name
  | _ => name

theorem Schema.mergeTarget?_eq (ds : List Database) (name : String) :
    Schema.mergeTarget? ds name = ds.findIdx? (·.name == homeName ds name) := by
  unfold Schema.mergeTarget?
  match ds with
  | [] => rfl
  | [d] => cases h : d.name == name <;> simp [homeName, List.findIdx?_cons, h]
  | d :: d' :: ds => cases h : (d :: d' :: ds).findIdx? (·.name == name) <;> simp [homeName, h]

theorem homes_homeName (ds : List Database) : Homes (homeName ds) ds := fun name => by
  match ds with
  | [d] => exact .inl List.mem_cons_self
  | [] | _ :: _ :: _ => exact .inr rfl

end Home

/-- A table as it is merged. -/
def Included.marked (i : Included Schema) (t : Table) : Table :=
  if i.referenceOnly then { t with referenceOnly := true } else t

/-- What arrives of an included database: its settings and domains, and its tables as they are merged. -/
def Included.arrival (i : Included Schema) (source : Database) : Database :=
  source.withoutTables.withTables (source.tables.map i.marked)

def Included.arrivals (i : Included Schema) : List Database :=
  i.schema.databases.map i.arrival

namespace Schema
variable {s t : Schema} {i j : Included Schema} {ds us : List Database}

theorem admits_withoutTables {source : Database} {ts : List Table} :
    source.withoutTables.Admits ts ↔ (source.withoutTables.withTables ts).tableNames.Nodup := by
  rw [Database.tableNames_withTables]
  simp [Database.Admits, Database.withoutTables, Database.tableNames]

/-- Merging goes by the home of the included database. -/
theorem gives_mergeDatabase (i : Included Schema) (source : Database) :
    (mergeDatabase source i.referenceOnly).Gives ds () us ↔
      (match ds.findIdx? (·.name == homeName ds source.name) with
        | some pos => (addTablesAt pos (source.tables.map i.marked)).Gives ds () us
        | none => (addTablesAt ds.length (source.tables.map i.marked)).Gives (ds ++ [source.withoutTables]) () us) := by
  have hmarked : (source.tables.map fun t => if i.referenceOnly then { t with referenceOnly := true } else t) =
      source.tables.map i.marked := rfl
  simp only [mergeDatabase, gives_bind, gives_get, mergeTarget?_eq, hmarked]
  cases hpos : ds.findIdx? (·.name == homeName ds source.name) <;> simp [hpos]

theorem takesIn_mergeDatabase (i : Included Schema) (hds : (ds.map (·.name)).Nodup) (source : Database) :
    TakesIn (mergeDatabase source i.referenceOnly) (homeName ds) ds (i.arrival source) := fun us => by
  rw [gives_mergeDatabase]
  have hname : (i.arrival source).name = source.name := rfl
  rcases findIdx?_home (homeName ds source.name) ds with ⟨pos, d, hpos, hd, hhome⟩ | ⟨hnone, hnew⟩
  · rw [hpos]
    rw [← hname] at hhome
    rw [merged_singleton_of_mem hds hd hhome, admissible_singleton_of_mem hds (List.mem_of_getElem? hd) hhome]
    exact gives_addTablesAt hd
  · -- The database is appended without its tables, which then arrive like those of any other.
    have hlast : (ds ++ [source.withoutTables])[ds.length]? = some source.withoutTables := by simp
    rw [hnone]
    rw [← hname] at hnew
    rw [merged_singleton_of_not_mem hnew, admissible_singleton_of_not_mem hnew]
    refine (gives_addTablesAt hlast).trans (and_congr admits_withoutTables ?_)
    rw [List.set_append_right _ _ (Nat.le_refl _), Nat.sub_self]
    rfl

/-! ### One database after another -/

/-- With one database everything goes there. -/
theorem merged_only (d : Database) (es : List Database) :
    merged (homeName [d]) [d] es = [d.withTables (es.flatMap (·.tables))] := by
  have hall : arriving (homeName [d]) es d.name = es.flatMap (·.tables) := by
    rw [arriving, List.filter_eq_self.mpr fun e _ => by simp [homeName]]
  have hnone : es.filter (fun e => homeName [d] e.name ∉ [d].map (·.name)) = [] :=
    List.filter_eq_nil_iff.mpr fun e _ => by simp [homeName]
  rw [merged, hnone, List.append_nil, List.map_singleton, hall]

/-- A schema with databases keeps deciding as it did. -/
theorem homeName_merged (hds : ds ≠ []) (es : List Database) : homeName (merged (homeName ds) ds es) = homeName ds := by
  match ds with
  | [] => exact absurd rfl hds
  | [d] =>
    rw [merged_only]
    rfl
  | d :: d' :: ds => rfl

/-- Databases of distinct names, at least one, for which `home` tells where included tables go. -/
structure Decided (home : String → String) (ds : List Database) : Prop where
  nonempty : ds ≠ []
  names : (ds.map (·.name)).Nodup
  home : homeName ds = home

theorem Decided.merged {home : String → String} (h : Decided home ds) (e : Database) :
    Decided home (merged home ds [e]) := by
  obtain ⟨hne, hds, rfl⟩ := h
  refine ⟨fun hnil => hne ?_, nodup_names_merged (homes_homeName ds) hds (List.nodup_singleton _),
    homeName_merged hne _⟩
  exact List.map_eq_nil_iff.mp (List.append_eq_nil_iff.mp hnil).1

/-- Unless several databases come to none, they arrive where the first of them would. -/
theorem gives_mergeDatabases (i : Included Schema) {sources : List Database} (hmany : ds ≠ [] ∨ sources.length ≤ 1)
    (hds : (ds.map (·.name)).Nodup) (hsources : (sources.map (·.name)).Nodup) :
    (forEach (mergeDatabase · i.referenceOnly) sources).Gives ds () us ↔
      Admissible (homeName ds) ds (sources.map i.arrival) ∧ us = merged (homeName ds) ds (sources.map i.arrival) := by
  rcases hmany with hne | hfew
  · have step : ∀ source ∈ sources, ∀ es, Decided (homeName ds) es →
        TakesIn (mergeDatabase source i.referenceOnly) (homeName ds) es (i.arrival source) ∧
          Decided (homeName ds) (merged (homeName ds) es [i.arrival source]) := fun source _ es hes =>
      ⟨hes.home ▸ takesIn_mergeDatabase i hes.names source, hes.merged _⟩
    have hnames : ((sources.map i.arrival).map (·.name)).Nodup := by
      rwa [List.map_map]
    exact gives_forEach_takesIn step hnames (homes_homeName ds) ⟨hne, hds, rfl⟩
  · cases sources with
    | nil => simp
    | cons source rest =>
      obtain rfl : rest = [] := by simpa using hfew
      simpa using takesIn_mergeDatabase i hds source us

/-- Without databases everything goes where the first included database went. -/
theorem gives_mergeDatabases_nil (i : Included Schema) {first : Database} {rest : List Database}
    (hrest : (rest.map (·.name)).Nodup)
    (h : (forEach (mergeDatabase · i.referenceOnly) (first :: rest)).Gives [] () us) :
    us = [(i.arrival first).withTables (rest.flatMap fun source => source.tables.map i.marked)] := by
  obtain ⟨v, hfirst, hothers⟩ := gives_forEach_cons.mp h
  have hnone : (([] : List Database).map (·.name)).Nodup := List.nodup_nil
  obtain ⟨-, rfl⟩ := (takesIn_mergeDatabase i hnone first v).mp hfirst
  have hone : merged (homeName []) [] [i.arrival first] = [i.arrival first] :=
    merged_singleton_of_not_mem List.not_mem_nil
  rw [hone] at hothers
  -- From here on there is an only database, so the rest has one home.
  have hnames : ([i.arrival first].map (·.name)).Nodup := List.nodup_singleton _
  obtain ⟨-, rfl⟩ := (gives_mergeDatabases i (.inl (List.cons_ne_nil _ _)) hnames hrest).mp hothers
  rw [merged_only, List.flatMap_map]
  rfl

/-! ### Included schemas -/

theorem gives_addInclude :
    (addInclude i).Gives s () t ↔
      ∃ ds, (forEach (mergeDatabase · i.referenceOnly) i.schema.databases).Gives s.databases () ds ∧
        t = { s with databases := ds, includes := s.includes ++ [i] } := by
  simp only [addInclude, gives_bind, gives_within, gives_report, gives_modify]
  constructor
  · rintro ⟨⟨⟩, _, ⟨ds, hds, rfl⟩, -, _, rfl, rfl⟩
    exact ⟨ds, hds, rfl⟩
  · rintro ⟨ds, hds, rfl⟩
    exact ⟨(), _, ⟨ds, hds, rfl⟩, (), _, rfl, rfl⟩

/-- The same databases, each with the same tables, both in any order. -/
def SameContents (ds es : List Database) : Prop :=
  ∃ fs, List.Forall₂ (fun d f => ∃ ts, d.tables.Perm ts ∧ f = { d with tables := ts }) ds fs ∧ fs.Perm es

theorem merged_perm (home : String → String) (ds : List Database) {es fs : List Database} (h : es.Perm fs) :
    SameContents (merged home ds es) (merged home ds fs) := by
  have hown : List.Forall₂ (fun d f => ∃ ts, d.tables.Perm ts ∧ f = { d with tables := ts })
      (ds.map fun d => d.withTables (arriving home es d.name))
      (ds.map fun d => d.withTables (arriving home fs d.name)) :=
    List.forall₂_map_left_iff.mpr (List.forall₂_map_right_iff.mpr (List.forall₂_same.mpr fun d _ =>
      ⟨_, (arriving_perm h d.name).append_left _, rfl⟩))
  have hnew : List.Forall₂ (fun d f => ∃ ts, d.tables.Perm ts ∧ f = { d with tables := ts })
      (es.filter fun e => home e.name ∉ ds.map (·.name)) (es.filter fun e => home e.name ∉ ds.map (·.name)) :=
    List.forall₂_same.mpr fun e _ => ⟨_, List.Perm.refl _, rfl⟩
  exact ⟨_, List.rel_append hown hnew, (List.Perm.refl _).append (h.filter _)⟩

/-- What arrives is in the database where it has its home. -/
theorem exists_mem_merged {home : String → String} (homes : Homes home ds) {es : List Database} {e : Database}
    (he : e ∈ es) {x : Table} (hx : x ∈ e.tables) : ∃ d ∈ merged home ds es, d.name = home e.name ∧ x ∈ d.tables := by
  by_cases hmem : home e.name ∈ ds.map (·.name)
  · obtain ⟨d, hd, hname⟩ := List.mem_map.mp hmem
    refine ⟨_, mem_merged.mpr (.inl ⟨d, hd, rfl⟩), hname, List.mem_append_right _ ?_⟩
    exact mem_arriving.mpr ⟨e, he, hname.symm, hx⟩
  · have hself : home e.name = e.name := (homes e.name).resolve_left hmem
    exact ⟨e, mem_merged.mpr (.inr ⟨he, hmem⟩), hself.symm, hx⟩

theorem arrivals_perm (hmark : j.referenceOnly = i.referenceOnly)
    (h : j.schema.databases.Perm i.schema.databases) : i.arrivals.Perm j.arrivals := by
  have hmarked : j.marked = i.marked := funext fun t => by rw [Included.marked, Included.marked, hmark]
  have harrival : j.arrival = i.arrival := funext fun source => by rw [Included.arrival, Included.arrival, hmarked]
  rw [Included.arrivals, Included.arrivals, harrival]
  exact h.symm.map _

theorem gives_addInclude_merged (hmany : s.databases ≠ [] ∨ i.schema.databases.length ≤ 1)
    (hs : (s.databases.map (·.name)).Nodup) (hi : (i.schema.databases.map (·.name)).Nodup) :
    (addInclude i).Gives s () t ↔ Admissible (homeName s.databases) s.databases i.arrivals ∧
      t = { s with
        databases := merged (homeName s.databases) s.databases i.arrivals
        includes := s.includes ++ [i] } := by
  simp only [gives_addInclude, gives_mergeDatabases i hmany hs hi]
  constructor
  · rintro ⟨_, ⟨hadmissible, rfl⟩, rfl⟩
    exact ⟨hadmissible, rfl⟩
  · rintro ⟨hadmissible, rfl⟩
    exact ⟨_, ⟨hadmissible, rfl⟩, rfl⟩

/-- An included schema adds its tables to the databases that the schema had before, behind their own tables, or
    appends its databases with their settings; the order of its databases is not more than the order of what is
    added. It is otherwise when several databases come to a schema without any: the first one is appended, and all
    tables are added to it. -/
theorem addInclude_lands (hs : (s.databases.map (·.name)).Nodup) (hi : (i.schema.databases.map (·.name)).Nodup)
    (h : (addInclude i).Gives s () t) :
    (s.databases ≠ [] ∨ i.schema.databases.length ≤ 1 →
      t.databases = merged (homeName s.databases) s.databases i.arrivals ∧
        (∀ source ∈ i.schema.databases, ∀ x ∈ source.tables, ∃ d ∈ t.databases,
          d.name = homeName s.databases source.name ∧ i.marked x ∈ d.tables) ∧
        ∀ j, j.referenceOnly = i.referenceOnly → j.schema.databases.Perm i.schema.databases →
          ∃ u, (addInclude j).Gives s () u ∧ SameContents t.databases u.databases) ∧
      ∀ first rest, s.databases = [] → i.schema.databases = first :: rest →
        t.databases = [(i.arrival first).withTables (rest.flatMap fun source => source.tables.map i.marked)] := by
  refine ⟨fun hmany => ?_, fun first rest hnone hfirst => ?_⟩
  · obtain ⟨hadmissible, rfl⟩ := (gives_addInclude_merged hmany hs hi).mp h
    refine ⟨rfl, fun source hsource x hx => ?_, fun j hmark hperm => ?_⟩
    · exact exists_mem_merged (homes_homeName _) (List.mem_map_of_mem hsource)
        (List.mem_append_right _ (List.mem_map_of_mem hx))
    · have harrivals := arrivals_perm hmark hperm
      have hmany' : s.databases ≠ [] ∨ j.schema.databases.length ≤ 1 := by rwa [hperm.length_eq]
      have hj : (j.schema.databases.map (·.name)).Nodup := (hperm.map _).nodup_iff.mpr hi
      exact ⟨_, (gives_addInclude_merged hmany' hs hj).mpr ⟨hadmissible.perm harrivals, rfl⟩,
        merged_perm _ _ harrivals⟩
  · obtain ⟨us, hus, rfl⟩ := gives_addInclude.mp h
    rw [hnone, hfirst] at hus
    rw [hfirst] at hi
    exact gives_mergeDatabases_nil i (List.nodup_cons.mp hi).2 hus

def bundle (ds : List (String × List String)) : Included Schema where
  path := ⟨"annex.json"⟩
  referenceOnly := false
  schema := ofNames ds

def withBundle (s : Schema) (ds : List (String × List String)) : Schema :=
  (addInclude (bundle ds) s).state

theorem addInclude_lands_staff :
    let s := ofNames [("shop", ["order"]), ("stock", ["item"])]
    let i := bundle [("staff", ["person"]), ("stock", ["shelf"])]
    let t := s.withBundle [("staff", ["person"]), ("stock", ["shelf"])]
    (s.databases.map (·.name)).Nodup ∧ (i.schema.databases.map (·.name)).Nodup ∧ (addInclude i).Gives s () t ∧
      t.databases = merged (homeName s.databases) s.databases i.arrivals ∧
      (t.databases.map fun d => (d.name, d.tableNames)) =
        [("shop", ["order"]), ("stock", ["item", "shelf"]), ("staff", ["person"])] ∧
      ∃ u, (addInclude (bundle [("stock", ["shelf"]), ("staff", ["person"])])).Gives s () u ∧
        SameContents t.databases u.databases := by
  intro s i t
  have hs : (s.databases.map (·.name)).Nodup := by decide
  have hi : (i.schema.databases.map (·.name)).Nodup := by decide
  have h : (addInclude i).Gives s () t := ⟨by decide +kernel, rfl⟩
  obtain ⟨hmerged, -, hperm⟩ := (addInclude_lands hs hi h).1 (.inl (List.cons_ne_nil _ _))
  exact ⟨hs, hi, h, hmerged, by decide +kernel, hperm _ rfl (List.Perm.swap _ _ _)⟩

/-- Two databases come to a schema without any. Both tables are in the database that came first, and there is none of
    the other name. -/
theorem second_database_lands_in_first :
    (({} : Schema).withBundle [("shop", ["order"]), ("stock", ["item"])]).databases.map
        (fun d => (d.name, d.tableNames)) = [("shop", ["order", "item"])] ∧
      (({} : Schema).withBundle [("stock", ["item"]), ("shop", ["order"])]).databases.map
        (fun d => (d.name, d.tableNames)) = [("stock", ["item", "order"])] ∧
      (addInclude (bundle [("shop", ["order"]), ("stock", ["item"])]) {}).result = .ok () ∧
      (addInclude (bundle [("stock", ["item"]), ("shop", ["order"])]) {}).result = .ok () := by
  decide +kernel

end Schema

end Schemata
