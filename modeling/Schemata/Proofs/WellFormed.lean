import Schemata.Proofs.Declared
import Schemata.Proofs.Names

/-!
# Well-formed schemas

What has a name has it alone, an index is over columns that its table has, and what belongs to a table
or a database carries the name of its owner. The conditions are stated in two parts: those of a
consistent table hold through finalization, and a well-formed table has besides that no two indices of
one name. Each addition to a table or a database keeps them.
-/

namespace Schemata

/-! ### Tables -/

/-- A column of the primary key is never null, and each class of a column has a key of its own. -/
structure Column.Proper (c : Column) : Prop where
  keyed : c.primaryKey = true → c.notNull = true
  classes : (c.inheritance.map (·.key)).Nodup

namespace Table

/-- An index has columns, and the table has them. -/
structure Supports (t : Table) (i : Index) : Prop where
  nonempty : i.columns ≠ []
  columns : ∀ name ∈ i.columnNames, name ∈ t.columns.map (·.name)

/-- Names and ids are distinct, indices and unique constraints are over columns of the table, and its keys and
    behaviors carry its name. -/
structure Consistent (t : Table) : Prop extends t.DistinctNames where
  behaviors : (t.behaviors.map (·.id)).Nodup
  indices : ∀ i ∈ t.indices, t.Supports i
  uniques : ∀ i ∈ t.uniques, t.Supports i
  ownKeys : ∀ k ∈ t.foreignKeys, k.table = t.name
  ownBehaviors : ∀ b ∈ t.behaviors, b.table = some t.name

/-- Besides, indices and unique constraints have names, all of them distinct. -/
structure WellFormed (t : Table) : Prop extends t.Consistent where
  indexNames : ((t.indices ++ t.uniques).map (·.name)).Nodup
  named : ∀ i ∈ t.indices ++ t.uniques, i.ownName.isSome = true

/-- A well-formed table of proper columns, as declarations give it. -/
structure WellBuilt (t : Table) : Prop extends t.WellFormed where
  proper : ∀ c ∈ t.columns, c.Proper

instance (t : Table) (i : Index) : Decidable (t.Supports i) :=
  decidable_of_iff (i.columns ≠ [] ∧ ∀ name ∈ i.columnNames, name ∈ t.columns.map (·.name))
    ⟨fun ⟨hn, hc⟩ => ⟨hn, hc⟩, fun ⟨hn, hc⟩ => ⟨hn, hc⟩⟩

instance (t : Table) : Decidable t.Consistent :=
  decidable_of_iff
    (t.DistinctNames ∧ (t.behaviors.map (·.id)).Nodup ∧ (∀ i ∈ t.indices, t.Supports i) ∧
      (∀ i ∈ t.uniques, t.Supports i) ∧ (∀ k ∈ t.foreignKeys, k.table = t.name) ∧
      ∀ b ∈ t.behaviors, b.table = some t.name)
    ⟨fun ⟨hn, hb, hi, hu, hk, ho⟩ => ⟨hn, hb, hi, hu, hk, ho⟩, fun ⟨hn, hb, hi, hu, hk, ho⟩ => ⟨hn, hb, hi, hu, hk, ho⟩⟩

instance (t : Table) : Decidable t.WellFormed :=
  decidable_of_iff
    (t.Consistent ∧ ((t.indices ++ t.uniques).map (·.name)).Nodup ∧
      ∀ i ∈ t.indices ++ t.uniques, i.ownName.isSome = true)
    ⟨fun ⟨hc, hn, hi⟩ => ⟨hc, hn, hi⟩, fun ⟨hc, hn, hi⟩ => ⟨hc, hn, hi⟩⟩

variable {t u : Table}

theorem wellFormed_empty (name : String) : WellFormed { name := name } := by
  refine ⟨⟨⟨?_, ?_⟩, ?_, ?_, ?_, ?_, ?_⟩, ?_, ?_⟩ <;> simp

/-- A table supports the index of another one if it has the columns of that one. -/
theorem Supports.mono {i j : Index} (h : t.Supports i) (hcolumns : t.columns.map (·.name) ⊆ u.columns.map (·.name))
    (hj : j.columns = i.columns) : u.Supports j where
  nonempty := hj ▸ h.nonempty
  columns name hname := by
    rw [Index.columnNames, hj] at hname
    exact hcolumns (h.columns name hname)

theorem Supports.of_columns {i : Index} (h : t.Supports i) (hcolumns : u.columns = t.columns) : u.Supports i :=
  h.mono (hcolumns ▸ List.Subset.refl _) rfl

/-! ### Changes of the rest -/

/-- Two tables differ in nothing that the conditions read. -/
structure SameNames (t u : Table) : Prop where
  name : u.name = t.name
  columns : u.columns.map (·.name) = t.columns.map (·.name)
  foreignKeys : u.foreignKeys.map (·.id) = t.foreignKeys.map (·.id)
  behaviors : u.behaviors.map (fun b => (b.id, b.table)) = t.behaviors.map fun b => (b.id, b.table)
  indices : u.indices = t.indices
  uniques : u.uniques = t.uniques

theorem Consistent.of_sameNames (h : t.Consistent) (hu : t.SameNames u) : u.Consistent := by
  have hsupports : ∀ i, t.Supports i → u.Supports i := fun i hi => hi.mono (hu.columns ▸ List.Subset.refl _) rfl
  refine ⟨⟨?_, ?_⟩, ?_, ?_, ?_, ?_, ?_⟩
  · rw [hu.columns]
    exact h.columns
  · have hkeys := congrArg (List.map KeyId.name) hu.foreignKeys
    rw [List.map_map, List.map_map] at hkeys
    exact hkeys ▸ h.foreignKeys
  · have hids := congrArg (List.map Prod.fst) hu.behaviors
    rw [List.map_map, List.map_map] at hids
    exact hids ▸ h.behaviors
  · rw [hu.indices]
    exact fun i hi => hsupports i (h.indices i hi)
  · rw [hu.uniques]
    exact fun i hi => hsupports i (h.uniques i hi)
  · rw [hu.name]
    exact forall_of_map_eq (P := fun key => key.table = t.name) hu.foreignKeys h.ownKeys
  · rw [hu.name]
    exact forall_of_map_eq (P := fun key => key.2 = some t.name) hu.behaviors h.ownBehaviors

theorem WellFormed.of_sameNames (h : t.WellFormed) (hu : t.SameNames u) : u.WellFormed where
  toConsistent := h.toConsistent.of_sameNames hu
  indexNames := by
    rw [hu.indices, hu.uniques]
    exact h.indexNames
  named := by
    rw [hu.indices, hu.uniques]
    exact h.named

/-- Whether a table may only be referred to makes no difference. -/
theorem WellFormed.marked (h : t.WellFormed) : WellFormed { t with referenceOnly := true } :=
  h.of_sameNames ⟨rfl, rfl, rfl, rfl, rfl, rfl⟩

theorem WellBuilt.marked (h : t.WellBuilt) : WellBuilt { t with referenceOnly := true } :=
  ⟨h.toWellFormed.marked, h.proper⟩

/-! ### Additions -/

theorem subset_names_addColumn (c : Column) : t.columns.map (·.name) ⊆ (t.columns ++ [c]).map (·.name) :=
  List.map_subset _ (List.subset_append_left _ _)

theorem Consistent.addColumn {c : Column} (h : t.Consistent) (hadd : t.addColumn c = .ok u) : u.Consistent := by
  obtain ⟨hfresh, rfl⟩ := addColumn_eq_ok.mp hadd
  refine ⟨⟨nodup_append_singleton h.columns (not_mem_of_any_eq_false hfresh), h.foreignKeys⟩, h.behaviors, ?_, ?_,
    h.ownKeys, h.ownBehaviors⟩
  · exact fun i hi => (h.indices i hi).mono (subset_names_addColumn c) rfl
  · exact fun i hi => (h.uniques i hi).mono (subset_names_addColumn c) rfl

theorem Consistent.addForeignKey {k : ForeignKey} (h : t.Consistent) (hadd : t.addForeignKey k = .ok u) :
    u.Consistent := by
  obtain ⟨hfresh, rfl⟩ := addForeignKey_eq_ok.mp hadd
  refine ⟨⟨h.columns, nodup_append_singleton h.foreignKeys (not_mem_of_any_eq_false hfresh)⟩, h.behaviors, ?_, ?_, ?_,
    h.ownBehaviors⟩
  · exact fun i hi => (h.indices i hi).of_columns rfl
  · exact fun i hi => (h.uniques i hi).of_columns rfl
  · exact forall_mem_append_singleton h.ownKeys rfl

theorem Consistent.addBehavior {b : Behavior} (h : t.Consistent) (hadd : t.addBehavior b = .ok u) : u.Consistent := by
  obtain ⟨rfl, hfree⟩ := addBehavior_eq_ok hadd
  refine ⟨⟨h.columns, h.foreignKeys⟩, nodup_append_singleton h.behaviors ?_, ?_, ?_, h.ownKeys, ?_⟩
  · intro hmem
    obtain ⟨c, hc, hid⟩ := List.mem_map.mp hmem
    exact hfree c hc hid
  · exact fun i hi => (h.indices i hi).of_columns rfl
  · exact fun i hi => (h.uniques i hi).of_columns rfl
  · exact forall_mem_append_singleton h.ownBehaviors rfl

/-- The index that is added is over columns of the table, under a name that is free. -/
theorem checkedIndex_supported {kind : IndexKind} {i j : Index} (h : t.checkedIndex kind i = .ok j) :
    t.Supports j ∧ j.ownName.isSome = true ∧ j.name ∉ (t.indices ++ t.uniques).map (·.name) := by
  obtain ⟨hcolumns, hfound⟩ := checkedIndex_eq_ok h
  have hnames : ∀ name ∈ j.columnNames, name ∈ t.columns.map (·.name) := by
    intro name hname
    rw [Index.columnNames, hcolumns] at hname
    obtain ⟨c, hc, heq⟩ := List.any_eq_true.mp (hfound name hname)
    exact List.mem_map.mpr ⟨c, hc, by simpa using heq⟩
  unfold checkedIndex at h
  split at h
  · cases h
  · rename_i hempty
    split at h
    · cases h
    · dsimp only at h
      split at h
      · cases h
      · rename_i hfree
        cases h
        refine ⟨⟨by simpa using hempty, hnames⟩, rfl, ?_⟩
        obtain ⟨hindices, huniques⟩ := Bool.or_eq_false_iff.mp (Bool.eq_false_iff.mpr hfree)
        rw [List.map_append, List.mem_append, not_or]
        exact ⟨not_mem_of_any_eq_false hindices, not_mem_of_any_eq_false huniques⟩

theorem Consistent.addIndex {i : Index} (h : t.Consistent) (hadd : t.addIndex i = .ok u) : u.Consistent := by
  obtain ⟨j, hj, rfl⟩ := addIndex_eq_ok.mp hadd
  refine ⟨⟨h.columns, h.foreignKeys⟩, h.behaviors, ?_, ?_, h.ownKeys, h.ownBehaviors⟩
  · refine forall_mem_append_singleton (fun i' hi' => (h.indices i' hi').of_columns rfl) ?_
    exact (checkedIndex_supported hj).1.of_columns rfl
  · exact fun i' hi' => (h.uniques i' hi').of_columns rfl

theorem Consistent.addUnique {i : Index} (h : t.Consistent) (hadd : t.addUnique i = .ok u) : u.Consistent := by
  obtain ⟨j, hj, rfl⟩ := addUnique_eq_ok.mp hadd
  refine ⟨⟨h.columns, h.foreignKeys⟩, h.behaviors, ?_, ?_, h.ownKeys, h.ownBehaviors⟩
  · exact fun i' hi' => (h.indices i' hi').of_columns rfl
  · refine forall_mem_append_singleton (fun i' hi' => (h.uniques i' hi').of_columns rfl) ?_
    exact (checkedIndex_supported hj).1.of_columns rfl

namespace WellFormed

theorem addColumn {c : Column} (h : t.WellFormed) (hadd : t.addColumn c = .ok u) : u.WellFormed := by
  have hu := h.toConsistent.addColumn hadd
  obtain ⟨-, rfl⟩ := addColumn_eq_ok.mp hadd
  exact ⟨hu, h.indexNames, h.named⟩

theorem addForeignKey {k : ForeignKey} (h : t.WellFormed) (hadd : t.addForeignKey k = .ok u) : u.WellFormed := by
  have hu := h.toConsistent.addForeignKey hadd
  obtain ⟨-, rfl⟩ := addForeignKey_eq_ok.mp hadd
  exact ⟨hu, h.indexNames, h.named⟩

theorem addBehavior {b : Behavior} (h : t.WellFormed) (hadd : t.addBehavior b = .ok u) : u.WellFormed := by
  have hu := h.toConsistent.addBehavior hadd
  obtain ⟨rfl, -⟩ := addBehavior_eq_ok hadd
  exact ⟨hu, h.indexNames, h.named⟩

theorem addUnique {i : Index} (h : t.WellFormed) (hadd : t.addUnique i = .ok u) : u.WellFormed := by
  have hu := h.toConsistent.addUnique hadd
  obtain ⟨j, hj, rfl⟩ := addUnique_eq_ok.mp hadd
  obtain ⟨-, hnamed, hfree⟩ := checkedIndex_supported hj
  refine ⟨hu, ?_, ?_⟩
  · rw [← List.append_assoc]
    exact nodup_append_singleton h.indexNames hfree
  · rw [← List.append_assoc]
    exact forall_mem_append_singleton h.named hnamed

/-- The new index stands between the other ones and the unique constraints. -/
theorem addIndex {i : Index} (h : t.WellFormed) (hadd : t.addIndex i = .ok u) : u.WellFormed := by
  have hu := h.toConsistent.addIndex hadd
  obtain ⟨j, hj, rfl⟩ := addIndex_eq_ok.mp hadd
  obtain ⟨-, hnamed, hfree⟩ := checkedIndex_supported hj
  have hperm : (t.indices ++ [j] ++ t.uniques).Perm (t.indices ++ t.uniques ++ [j]) := by
    rw [List.append_assoc, List.append_assoc]
    exact List.perm_append_comm.append_left _
  refine ⟨hu, ?_, fun i' hi' => ?_⟩
  · exact (hperm.map _).nodup_iff.mpr (nodup_append_singleton h.indexNames hfree)
  · exact forall_mem_append_singleton h.named hnamed i' (hperm.mem_iff.mp hi')

theorem addMissingIndex {i : Index} (h : t.WellFormed) (hadd : t.addMissingIndex i = .ok u) : u.WellFormed := by
  rcases addMissingIndex_eq_ok.mp hadd with ⟨-, rfl⟩ | ⟨-, hadd⟩
  · exact h
  · exact h.addIndex hadd

/-! ### Removals -/

theorem removeForeignKey (h : t.WellFormed) (name : String) : (t.removeForeignKey name).WellFormed := by
  have hsub : (t.foreignKeys.eraseP (·.name == name)).Sublist t.foreignKeys := List.eraseP_sublist
  refine ⟨⟨⟨h.columns, h.foreignKeys.sublist (hsub.map _)⟩, h.behaviors, ?_, ?_, ?_, h.ownBehaviors⟩, h.indexNames,
    h.named⟩
  · exact fun i hi => (h.indices i hi).of_columns rfl
  · exact fun i hi => (h.uniques i hi).of_columns rfl
  · exact fun k hk => h.ownKeys k (hsub.subset hk)

theorem removeBehavior (h : t.WellFormed) (id : String) : (t.removeBehavior id).WellFormed := by
  have hsub : (t.behaviors.eraseP (·.id == id)).Sublist t.behaviors := List.eraseP_sublist
  refine ⟨⟨⟨h.columns, h.foreignKeys⟩, h.behaviors.sublist (hsub.map _), ?_, ?_, h.ownKeys, ?_⟩, h.indexNames,
    h.named⟩
  · exact fun i hi => (h.indices i hi).of_columns rfl
  · exact fun i hi => (h.uniques i hi).of_columns rfl
  · exact fun b hb => h.ownBehaviors b (hsub.subset hb)

theorem withoutUniques (h : t.WellFormed) : WellFormed { t with uniques := [] } := by
  refine ⟨⟨⟨h.columns, h.foreignKeys⟩, h.behaviors, ?_, fun i hi => absurd hi List.not_mem_nil, h.ownKeys,
    h.ownBehaviors⟩, ?_, ?_⟩
  · exact fun i hi => (h.indices i hi).of_columns rfl
  · rw [List.append_nil]
    exact (List.nodup_append.mp (List.map_append ▸ h.indexNames)).1
  · exact fun i hi => h.named i (List.mem_append_left _ (List.append_nil t.indices ▸ hi))

end WellFormed

end Table

/-! ### Databases -/

namespace Database

/-- The tables, the domains and the behaviors of a database have distinct names and ids, its behaviors belong to no
    table, and `P` holds of every table. -/
structure WellFormed (P : Table → Prop) (d : Database) : Prop where
  tables : d.tableNames.Nodup
  domains : (d.domains.map (·.name)).Nodup
  behaviors : (d.behaviors.map (·.id)).Nodup
  ownBehaviors : ∀ b ∈ d.behaviors, b.table = none
  inTables : ∀ t ∈ d.tables, P t

instance (P : Table → Prop) [DecidablePred P] (d : Database) : Decidable (d.WellFormed P) :=
  decidable_of_iff
    (d.tableNames.Nodup ∧ (d.domains.map (·.name)).Nodup ∧ (d.behaviors.map (·.id)).Nodup ∧
      (∀ b ∈ d.behaviors, b.table = none) ∧ ∀ t ∈ d.tables, P t)
    ⟨fun ⟨ht, hm, hb, ho, hin⟩ => ⟨ht, hm, hb, ho, hin⟩, fun ⟨ht, hm, hb, ho, hin⟩ => ⟨ht, hm, hb, ho, hin⟩⟩

variable {P Q : Table → Prop} {d e : Database}

theorem wellFormed_empty (P : Table → Prop) (name : String) : WellFormed P { name := name } := by
  refine ⟨?_, ?_, ?_, ?_, ?_⟩ <;> simp [tableNames]

namespace WellFormed

theorem addTable {t : Table} (h : d.WellFormed P) (ht : P t) (hadd : d.addTable t = .ok e) : e.WellFormed P := by
  obtain ⟨hfree, rfl⟩ := addTable_eq_ok.mp hadd
  exact ⟨tableNames_append h.tables hfree, h.domains, h.behaviors, h.ownBehaviors,
    forall_mem_append_singleton h.inTables ht⟩

theorem addDomain {m : Domain} (h : d.WellFormed P) (hadd : d.addDomain m = .ok e) : e.WellFormed P := by
  obtain ⟨name, hname, hfree, rfl⟩ := addDomain_eq_ok.mp hadd
  refine ⟨h.tables, nodup_append_singleton h.domains ?_, h.behaviors, h.ownBehaviors, h.inTables⟩
  intro hmem
  obtain ⟨n, hn, heq⟩ := List.mem_map.mp hmem
  simpa [heq, hname] using List.find?_eq_none.mp hfree n hn

theorem addBehavior {b : Behavior} (h : d.WellFormed P) (hadd : d.addBehavior b = .ok e) : e.WellFormed P := by
  obtain ⟨rfl, hfree⟩ := addBehavior_eq_ok hadd
  refine ⟨h.tables, h.domains, nodup_append_singleton h.behaviors ?_, ?_, h.inTables⟩
  · intro hmem
    obtain ⟨c, hc, hid⟩ := List.mem_map.mp hmem
    exact hfree c hc hid
  · exact forall_mem_append_singleton h.ownBehaviors rfl

theorem removeBehavior (h : d.WellFormed P) (id : String) : (d.removeBehavior id).WellFormed P := by
  have hsub : (d.behaviors.eraseP (·.id == id)).Sublist d.behaviors := List.eraseP_sublist
  exact ⟨h.tables, h.domains, h.behaviors.sublist (hsub.map _), fun b hb => h.ownBehaviors b (hsub.subset hb),
    h.inTables⟩

/-- Tables may change in their places where they keep their names. -/
theorem of_forall₂ {ts : List Table} (h : d.WellFormed P)
    (hts : List.Forall₂ (fun t u => u.name = t.name ∧ (P t → Q u)) d.tables ts) :
    WellFormed Q { d with tables := ts } where
  tables := by
    rw [tableNames, map_eq_of_forall₂ hts fun t u htu => htu.1]
    exact h.tables
  domains := h.domains
  behaviors := h.behaviors
  ownBehaviors := h.ownBehaviors
  inTables u hu := by
    obtain ⟨pos, hpos⟩ := List.mem_iff_getElem?.mp hu
    obtain ⟨t, ht, -, hPQ⟩ := forall₂_getElem? hts hpos
    exact hPQ (h.inTables t (List.mem_of_getElem? ht))

theorem withoutTables (h : d.WellFormed P) : d.withoutTables.WellFormed P where
  tables := List.nodup_nil
  domains := h.domains
  behaviors := List.nodup_nil
  ownBehaviors _ hb := absurd hb List.not_mem_nil
  inTables _ ht := absurd ht List.not_mem_nil

end WellFormed

end Database

/-! ### Schemas -/

/-- Databases have distinct names, and they are well-formed where `P` holds of their tables. -/
structure Database.AllWellFormed (P : Table → Prop) (ds : List Database) : Prop where
  names : (ds.map (·.name)).Nodup
  each : ∀ d ∈ ds, d.WellFormed P

instance (P : Table → Prop) [DecidablePred P] (ds : List Database) : Decidable (Database.AllWellFormed P ds) :=
  decidable_of_iff ((ds.map (·.name)).Nodup ∧ ∀ d ∈ ds, d.WellFormed P)
    ⟨fun ⟨hn, he⟩ => ⟨hn, he⟩, fun ⟨hn, he⟩ => ⟨hn, he⟩⟩

namespace Database.AllWellFormed

variable {P : Table → Prop} {ds : List Database} {d e : Database}

theorem nil : AllWellFormed P [] :=
  ⟨List.nodup_nil, fun _ hd => absurd hd List.not_mem_nil⟩

/-- A database of a new name may join. -/
theorem append (h : AllWellFormed P ds) (hd : d.WellFormed P) (hname : d.name ∉ ds.map (·.name)) :
    AllWellFormed P (ds ++ [d]) where
  names := nodup_append_singleton h.names hname
  each := forall_mem_append_singleton h.each hd

/-- A database may change in its place where it keeps its name. -/
theorem set {pos : Nat} (h : AllWellFormed P ds) (hd : ds[pos]? = some d) (hname : e.name = d.name)
    (he : e.WellFormed P) : AllWellFormed P (ds.set pos e) where
  names := by
    have hall := forall₂_set (R := fun d e : Database => e.name = d.name) (fun _ => rfl) hd hname
    rw [map_eq_of_forall₂ hall fun _ _ heq => heq]
    exact h.names
  each f hf := by
    rcases List.mem_or_eq_of_mem_set hf with hf | rfl
    · exact h.each f hf
    · exact he

end Database.AllWellFormed

abbrev Schema.WellFormed (P : Table → Prop) (s : Schema) : Prop :=
  Database.AllWellFormed P s.databases

end Schemata
