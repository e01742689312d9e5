import Schemata.Proofs.Operations

/-!
# Merging and operations on schemas

What merges schemas does two things: it adds a table to a database in its place, and it appends a
database of a new name. So databases stay well-formed, and none of them loses or changes a table. A
merge that fails is not undone: what was merged before the table that clashes stays.
-/

namespace Schemata

open Change

/-! ### Steps of merging -/

/-- A step of merging, which adds a table that `Tables` accepts or a database that `Bases` accepts. -/
inductive MergeStep (Tables : Table → Prop) (Bases : Database → Prop) :
    List Database → List Event → List Database → Prop where
  | table {ds pos d t e} (here : ds[pos]? = some d) (added : d.addTable t = .ok e) (accepted : Tables t) :
      MergeStep Tables Bases ds [] (ds.set pos e)
  | database {ds d} (new : d.name ∉ ds.map (·.name)) (accepted : Bases d) : MergeStep Tables Bases ds [] (ds ++ [d])

/-- Every database is in its place, with its own tables first. -/
def Grown (ds es : List Database) : Prop :=
  ∀ (pos : Nat) d, ds[pos]? = some d → ∃ ts, es[pos]? = some { d with tables := d.tables ++ ts }

theorem trail_grown : Trail fun ds _ es => Grown ds es where
  refl ds pos d hd := ⟨[], by rw [hd, List.append_nil]⟩
  trans h h' pos d hd := by
    obtain ⟨ts, hts⟩ := h pos d hd
    obtain ⟨us, hus⟩ := h' pos _ hts
    exact ⟨ts ++ us, by rw [hus, List.append_assoc]⟩

section Steps
variable {Tables : Table → Prop} {Bases : Database → Prop} {ds es : List Database} {log : List Event}

theorem MergeStep.grown (h : MergeStep Tables Bases ds log es) : Grown ds es := by
  intro pos d hd
  cases h with
  | @table pos' d' t e here added =>
    obtain ⟨-, rfl⟩ := Database.addTable_eq_ok.mp added
    have hlt := (List.getElem?_eq_some_iff.mp here).1
    by_cases hpos : pos' = pos
    · subst hpos
      obtain rfl := Option.some.inj (here.symm.trans hd)
      exact ⟨[t], List.getElem?_set_self hlt⟩
    · exact ⟨[], by rw [List.getElem?_set_ne hpos, hd, List.append_nil]⟩
  | database =>
    have hlt := (List.getElem?_eq_some_iff.mp hd).1
    exact ⟨[], by rw [List.getElem?_append_left hlt, hd, List.append_nil]⟩

theorem MergeStep.allWellFormed {P : Table → Prop} (h : MergeStep P (Database.WellFormed P) ds log es)
    (hds : Database.AllWellFormed P ds) : Database.AllWellFormed P es := by
  cases h with
  | table here added accepted =>
    have hwell := (hds.each _ (List.mem_of_getElem? here)).addTable accepted added
    obtain ⟨-, rfl⟩ := Database.addTable_eq_ok.mp added
    exact hds.set here rfl hwell
  | database new accepted => exact hds.append accepted new

end Steps

/-! ### Merging as steps -/

namespace Schema

/-- A schema is the one of its fields; the structure is nested in itself, so this is no definitional equation. -/
theorem mk_fields (s : Schema) : ⟨s.location, s.referenceOnly, s.databases, s.includes⟩ = s := by
  cases s
  rfl

section Merge
variable {Tables : Table → Prop} {Bases : Database → Prop}

theorem not_mem_of_findIdx?_eq_none {ds : List Database} {name : String} (h : ds.findIdx? (·.name == name) = none) :
    name ∉ ds.map (·.name) := by
  rintro hmem
  obtain ⟨d, hd, rfl⟩ := List.mem_map.mp hmem
  simpa using List.findIdx?_eq_none_iff.mp h d hd

theorem not_mem_of_mergeTarget?_eq_none {ds : List Database} {name : String} (h : mergeTarget? ds name = none) :
    name ∉ ds.map (·.name) := by
  unfold mergeTarget? at h
  split at h
  · cases h
  · rename_i hfind
    exact not_mem_of_findIdx?_eq_none hfind

theorem steps_addTablesAt (pos : Nat) {ts : List Table} (hts : ∀ t ∈ ts, Tables t) (ds : List Database) :
    (addTablesAt pos ts).Follows (Steps (MergeStep Tables Bases)) ds := by
  refine .forEach Steps.trail fun t ht ds => ?_
  have hadd : ∀ d : Database, (Change.attempt (·.addTable t)).Follows
      (fun d es e => es = [] ∧ (e = d ∨ d.addTable t = .ok e)) d := by
    intro d
    unfold Change.Follows Change.attempt
    dsimp only
    cases he : d.addTable t with
    | ok e => exact ⟨rfl, .inr rfl⟩
    | error err => exact ⟨rfl, .inl rfl⟩
  refine .atPosition Steps.trail hadd ?_
  rintro d _ e hd ⟨rfl, rfl | he⟩
  · obtain ⟨hlt, rfl⟩ := List.getElem?_eq_some_iff.mp hd
    rw [List.set_getElem_self]
    exact .refl ds
  · exact .single (.table hd he (hts t ht))

theorem steps_mergeDatabase {source : Database} (referenceOnly : Bool) (htables : ∀ t ∈ source.tables, Tables t)
    (hmark : ∀ t, Tables t → Tables { t with referenceOnly := true }) (hbase : Bases source.withoutTables)
    (ds : List Database) :
    (mergeDatabase source referenceOnly).Follows (Steps (MergeStep Tables Bases)) ds := by
  have hts : ∀ t ∈ source.tables.map fun t => if referenceOnly then { t with referenceOnly := true } else t,
      Tables t := by
    intro t ht
    obtain ⟨u, hu, rfl⟩ := List.mem_map.mp ht
    cases referenceOnly with
    | false => exact htables u hu
    | true => exact hmark u (htables u hu)
  refine .of_get ?_
  dsimp only
  split
  · exact steps_addTablesAt _ hts ds
  · rename_i hnone
    refine (Steps.modify (.database (not_mem_of_mergeTarget?_eq_none hnone) hbase)).bind Steps.trail fun _ es _ => ?_
    exact steps_addTablesAt _ hts es

theorem steps_joinDatabase {d : Database} (htables : ∀ t ∈ d.tables, Tables t) (hbase : Bases d) (ds : List Database) :
    (joinDatabase d).Follows (Steps (MergeStep Tables Bases)) ds := by
  refine .of_get ?_
  split
  · exact steps_addTablesAt _ htables ds
  · rename_i hnone
    exact Steps.modify (.database (not_mem_of_findIdx?_eq_none hnone) hbase)

theorem steps_mergeDatabases {i : Included Schema} (htables : ∀ d ∈ i.schema.databases, ∀ t ∈ d.tables, Tables t)
    (hmark : ∀ t, Tables t → Tables { t with referenceOnly := true })
    (hbase : ∀ d ∈ i.schema.databases, Bases d.withoutTables) (ds : List Database) :
    (Change.forEach (mergeDatabase · i.referenceOnly) i.schema.databases).Follows (Steps (MergeStep Tables Bases)) ds :=
  .forEach Steps.trail fun d hd => steps_mergeDatabase _ (htables d hd) hmark (hbase d hd)

theorem steps_joinDatabases {other : Schema} (htables : ∀ d ∈ other.databases, ∀ t ∈ d.tables, Tables t)
    (hbase : ∀ d ∈ other.databases, Bases d) (ds : List Database) :
    (Change.forEach joinDatabase other.databases).Follows (Steps (MergeStep Tables Bases)) ds :=
  .forEach Steps.trail fun d hd => steps_joinDatabase (htables d hd) (hbase d hd)

end Merge

/-! ### What a merge keeps -/

variable {P : Table → Prop} {s : Schema}

theorem wellFormed_addInclude {i : Included Schema} (hi : i.schema.WellFormed P)
    (hmark : ∀ t, P t → P { t with referenceOnly := true }) (s : Schema) :
    (addInclude i).Follows (fun s _ t => s.WellFormed P → t.WellFormed P) s := by
  have hR := trail_keeps (Schema.WellFormed P)
  have hmerge : (Change.forEach (mergeDatabase · i.referenceOnly) i.schema.databases).Follows
      (Steps (MergeStep P (Database.WellFormed P))) s.databases :=
    steps_mergeDatabases (fun d hd => (hi.each d hd).inTables) hmark
      (fun d hd => (hi.each d hd).withoutTables) s.databases
  refine Follows.bind hR (Follows.within hmerge fun es ds hds => ?_) fun _ _ _ => ?_
  · exact hds.lift (trail_keeps (Database.AllWellFormed P)) MergeStep.allWellFormed
  · exact (follows_report id).bind hR fun _ _ _ => follows_modify id

theorem wellFormed_join {other : Schema} (hother : other.WellFormed P) (s : Schema) :
    (join other).Follows (fun s _ t => s.WellFormed P → t.WellFormed P) s := by
  have hR := trail_keeps (Schema.WellFormed P)
  have hmerge : (Change.forEach joinDatabase other.databases).Follows
      (Steps (MergeStep P (Database.WellFormed P))) s.databases :=
    steps_joinDatabases (fun d hd => (hother.each d hd).inTables) (fun d hd => hother.each d hd) s.databases
  refine Follows.bind hR (Follows.within hmerge fun es ds hds => ?_) fun _ _ _ => follows_modify id
  exact hds.lift (trail_keeps (Database.AllWellFormed P)) MergeStep.allWellFormed

/-! ### What a merge that fails leaves -/

/-- Where what comes after a change of the databases cannot fail, a failure leaves what that change left. -/
theorem state_of_error {c : Edit (List Database) Unit} {f : Unit → Edit Schema Unit} {e : Error}
    (hf : ∀ t, ((f ()) t).result = .ok ())
    (h : ((Change.within (·.databases) (fun ds s => { s with databases := ds }) c >>= f) s).result = .error e) :
    ((Change.within (·.databases) (fun ds s => { s with databases := ds }) c >>= f) s).state =
      { s with databases := (c s.databases).state } := by
  rw [← bind_eq] at h ⊢
  simp only [Change.bind, Change.within] at h ⊢
  cases hr : (c s.databases).result with
  | ok u =>
    rw [hr] at h
    simp only [hf] at h
    cases h
  | error e => rfl

/-- A merge that fails keeps everything that was there and adds nothing to the includes. -/
theorem grown_of_addInclude_error {i : Included Schema} {e : Error} (h : (addInclude i s).result = .error e) :
    ∃ ds, (addInclude i s).state = { s with databases := ds } ∧ Grown s.databases ds := by
  refine ⟨_, state_of_error (fun _ => rfl) h, ?_⟩
  have hmerge : (Change.forEach (mergeDatabase · i.referenceOnly) i.schema.databases).Follows
      (Steps (MergeStep (fun _ => True) (fun _ => True))) s.databases :=
    steps_mergeDatabases (fun _ _ _ _ => trivial) (fun _ _ => trivial) (fun _ _ => trivial) s.databases
  exact hmerge.lift trail_grown MergeStep.grown

theorem grown_of_join_error {other : Schema} {e : Error} (h : (join other s).result = .error e) :
    ∃ ds, (join other s).state = { s with databases := ds } ∧ Grown s.databases ds := by
  refine ⟨_, state_of_error (fun _ => rfl) h, ?_⟩
  have hmerge : (Change.forEach joinDatabase other.databases).Follows
      (Steps (MergeStep (fun _ => True) (fun _ => True))) s.databases :=
    steps_joinDatabases (fun _ _ _ _ => trivial) (fun _ _ => trivial) s.databases
  exact hmerge.lift trail_grown MergeStep.grown

def depot : Schema where
  databases := [{ name := "shop", tables := [{ name := "crate" }] }]

/-- A schema whose second table clashes with the only one of the depot. -/
def annex : Included Schema where
  path := ⟨"annex.json"⟩
  referenceOnly := false
  schema := { databases := [{ name := "shop", tables := [{ name := "barrel" }, { name := "crate" }] }] }

/-- The table that was merged before the clash stays. -/
theorem addInclude_keeps_part :
    depot.WellFormed Table.WellFormed ∧ annex.schema.WellFormed Table.WellFormed ∧
      (addInclude annex depot).result = .error (.constraint (.duplicateTable "crate" "shop")) ∧
      depot.databases.map (·.tableNames) = [["crate"]] ∧
      (addInclude annex depot).state.databases.map (·.tableNames) = [["crate", "barrel"]] :=
  ⟨by decide, by decide, rfl, rfl, rfl⟩

/-! ### Operations -/

inductive Operation where
  | addDatabase (d : Database)
  | addInclude (i : Included Schema)
  | join (other : Schema)
  | onDatabase (name : String) (op : Database.Operation)

namespace Operation

def run : Operation → Edit Schema Unit
  | addDatabase d => Change.attempt (·.addDatabase d)
  | addInclude i => Schema.addInclude i
  | join other => Schema.join other
  | onDatabase name op =>
    Change.within (·.databases) (fun ds s => { s with databases := ds }) (Change.atFirst (·.name == name) op.run)

/-- What is added or merged must be well-formed itself. -/
def Admissible : Operation → Prop
  | addDatabase d => d.WellFormed Table.WellFormed
  | addInclude i => i.schema.WellFormed Table.WellFormed
  | join other => other.WellFormed Table.WellFormed
  | onDatabase _ op => op.Admissible

/-- Merging goes table by table; every other operation is done at once. -/
def IsAtomic : Operation → Prop
  | addInclude _ | join _ => False
  | addDatabase _ | onDatabase .. => True

theorem atomic_run {op : Operation} (hop : op.IsAtomic) : op.run.Atomic := by
  cases op with
  | addDatabase d => exact atomic_attempt _
  | onDatabase name op =>
    exact (op.atomic_run.atFirst _).within mk_fields
  | addInclude | join => exact absurd hop id

theorem wellFormed_addDatabase {d : Database} (hd : d.WellFormed P) {t : Schema} (h : s.addDatabase d = .ok t)
    (hs : s.WellFormed P) : t.WellFormed P := by
  unfold Schema.addDatabase at h
  split at h
  · cases h
  · rename_i hfree
    cases h
    refine hs.append hd fun hmem => ?_
    obtain ⟨e, he, hname⟩ := List.mem_map.mp hmem
    have hnone : s.databases.find? (·.name == d.name) = none := by simpa [database?] using hfree
    simpa [hname] using List.find?_eq_none.mp hnone e he

theorem wellFormed_onDatabase (name : String) {op : Database.Operation} (hop : op.Admissible) (s : Schema) :
    (onDatabase name op).run.Follows (fun s _ t => s.WellFormed Table.WellFormed → t.WellFormed Table.WellFormed) s := by
  have hdatabase : ∀ d, op.run.Follows (fun d _ e => e.name = d.name ∧
      (d.WellFormed Table.WellFormed → e.WellFormed Table.WellFormed)) d := fun d =>
    ⟨op.name_run d, Database.Operation.wellFormed_run hop d⟩
  have hR := trail_keeps (Database.AllWellFormed Table.WellFormed)
  have hdatabases := follows_atFirst (p := fun d : Database => d.name == name) hR hdatabase
    (fun ds pos d _ e hd hde hds => hds.set hd hde.1 (hde.2 (hds.each d (List.mem_of_getElem? hd)))) s.databases
  unfold run
  refine Follows.within hdatabases ?_
  exact fun _ _ h => h

theorem wellFormed_run {op : Operation} (hop : op.Admissible) (s : Schema) :
    op.run.Follows (fun s _ t => s.WellFormed Table.WellFormed → t.WellFormed Table.WellFormed) s := by
  cases op with
  | addDatabase d =>
    exact follows_attempt (trail_keeps (Schema.WellFormed Table.WellFormed)) fun t ht => wellFormed_addDatabase hop ht
  | addInclude i => exact wellFormed_addInclude hop (fun _ ht => ht.marked) s
  | join other => exact wellFormed_join hop s
  | onDatabase name op => exact wellFormed_onDatabase name hop s

end Operation

theorem operations :
    Operations Operation.run Operation.Admissible Operation.IsAtomic (Schema.WellFormed Table.WellFormed) where
  kept _ hops _ hs := runAll_keeps (fun _ hop s => Operation.wellFormed_run (hops _ hop) s) hs
  unchanged _ hop := Operation.atomic_run hop

end Schema

end Schemata
