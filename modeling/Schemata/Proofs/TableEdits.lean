import Schemata.Finalize
import Schemata.Proofs.Change
import Schemata.Proofs.Growth

/-!
# What finalization does to one table

When each step on a single table succeeds, what it makes of the table, and that it extends the table.
-/

namespace Schemata

namespace Index

@[simp] theorem columnNames_ofNames (names : List String) : (ofNames names).columnNames = names := by
  simp [ofNames, columnNames, Function.comp_def]

@[simp] theorem hasColumns_columnNames (i : Index) : i.hasColumns i.columnNames = true := by
  simp [hasColumns]

/-- The index under its own name, or the one that a table makes for it. -/
def named (i : Index) (table : String) (kind : IndexKind) : Index :=
  { i with ownName := some (i.ownName.getD (i.defaultName table kind.marker)) }

@[simp] theorem columnNames_named (i : Index) (table : String) (kind : IndexKind) :
    (i.named table kind).columnNames = i.columnNames := rfl

end Index

namespace Table
variable {t u : Table} {w : Unit}

/-- An index over whole columns, under a name made of the table, a marker and the columns. -/
def indexOver (t : Table) (marker : String) (names : List String) : Index where
  ownName := some (t.name ++ "_" ++ marker ++ "_" ++ "_".intercalate names)
  columns := names.map fun name => { name := name }

theorem indexOver_eq (t : Table) (marker : String) (names : List String) : t.indexOver marker names =
    { Index.ofNames names with ownName := some ((Index.ofNames names).defaultName t.name marker) } := by
  rw [Index.defaultName, Index.columnNames_ofNames]
  rfl

@[simp] theorem columnNames_indexOver (t : Table) (marker : String) (names : List String) :
    (t.indexOver marker names).columnNames = names :=
  Index.columnNames_ofNames names

/-! ### Adding columns and indices -/

theorem addColumn_eq_ok {c : Column} :
    t.addColumn c = .ok u ↔ t.hasColumn c.name = false ∧ u = { t with columns := t.columns ++ [c] } := by
  unfold addColumn
  cases h : t.hasColumn c.name
  · simp [eq_comm]
  · simp

/-- A foreign key is added as one of the table. -/
theorem addForeignKey_eq_ok {k : ForeignKey} :
    t.addForeignKey k = .ok u ↔ t.foreignKeys.any (·.name == k.name) = false ∧
      u = { t with foreignKeys := t.foreignKeys ++ [{ k with table := t.name }] } := by
  unfold addForeignKey
  cases t.foreignKeys.any (·.name == k.name)
  · simp [eq_comm]
  · simp

/-- An index is added under the name that it gets in the table. -/
theorem addIndex_eq_ok {i : Index} :
    t.addIndex i = .ok u ↔ ∃ j, t.checkedIndex .index i = .ok j ∧ u = { t with indices := t.indices ++ [j] } := by
  unfold addIndex
  cases t.checkedIndex .index i with
  | ok j => simp [Except.map, eq_comm]
  | error e => simp [Except.map]

theorem addUnique_eq_ok {i : Index} :
    t.addUnique i = .ok u ↔ ∃ j, t.checkedIndex .unique i = .ok j ∧ u = { t with uniques := t.uniques ++ [j] } := by
  unfold addUnique
  cases t.checkedIndex .unique i with
  | ok j => simp [Except.map, eq_comm]
  | error e => simp [Except.map]

/-- An index keeps its columns when it gets its name, and they are columns of the table. -/
theorem checkedIndex_eq_ok {kind : IndexKind} {i j : Index} (h : t.checkedIndex kind i = .ok j) :
    j.columns = i.columns ∧ ∀ name ∈ i.columnNames, t.hasColumn name = true := by
  unfold checkedIndex at h
  split at h
  · cases h
  · split at h
    · cases h
    · rename_i hfind
      dsimp only at h
      split at h
      · cases h
      · cases h
        refine ⟨rfl, fun name hname => ?_⟩
        simpa using List.find?_eq_none.mp hfind name hname

/-- The index as it is in the table: under its own name, or one made for it. -/
theorem checkedIndex_named {kind : IndexKind} {i j : Index} (h : t.checkedIndex kind i = .ok j) :
    j = i.named t.name kind := by
  unfold checkedIndex at h
  split at h
  · cases h
  · split at h
    · cases h
    · dsimp only at h
      split at h <;> cases h
      rfl

theorem hasIndexOver_addIndex {i : Index} (h : t.addIndex i = .ok u) : u.hasIndexOver i.columnNames = true := by
  obtain ⟨j, hj, rfl⟩ := addIndex_eq_ok.mp h
  have hcols : j.columnNames = i.columnNames := by
    rw [Index.columnNames, (checkedIndex_eq_ok hj).1, Index.columnNames]
  simp [hasIndexOver, ← hcols]

theorem Extends.of_addIndex {i : Index} (h : t.addIndex i = .ok u) : t.Extends u := by
  obtain ⟨j, -, rfl⟩ := addIndex_eq_ok.mp h
  exact .addIndex

theorem addMissingIndex_eq_ok {i : Index} :
    t.addMissingIndex i = .ok u ↔
      t.hasIndexOver i.columnNames = true ∧ u = t ∨ t.hasIndexOver i.columnNames = false ∧ t.addIndex i = .ok u := by
  unfold addMissingIndex
  cases h : t.hasIndexOver i.columnNames
  · simp
  · simp [eq_comm]

theorem addMissingIndex_indices {i : Index} (h : t.addMissingIndex i = .ok u) : u = { t with indices := u.indices } := by
  rcases addMissingIndex_eq_ok.mp h with ⟨-, rfl⟩ | ⟨-, h⟩
  · rfl
  · obtain ⟨j, -, rfl⟩ := addIndex_eq_ok.mp h
    rfl

theorem Extends.of_addMissingIndex {i : Index} (h : t.addMissingIndex i = .ok u) : t.Extends u := by
  rcases addMissingIndex_eq_ok.mp h with ⟨-, rfl⟩ | ⟨-, h⟩
  · exact .refl _
  · exact .of_addIndex h

theorem hasIndexOver_addMissingIndex {i : Index} (h : t.addMissingIndex i = .ok u) :
    u.hasIndexOver i.columnNames = true := by
  rcases addMissingIndex_eq_ok.mp h with ⟨hi, rfl⟩ | ⟨-, h⟩
  · exact hi
  · exact hasIndexOver_addIndex h

/-- Steps that each add a missing index leave the table with all these indices. -/
theorem gives_addMissingIndices {α : Type} {f : α → Edit Table Unit} (index : α → Index)
    (hf : ∀ a t u, (f a).Gives t () u → t.addMissingIndex (index a) = .ok u) {l : List α}
    (h : (Change.forEach f l).Gives t w u) :
    t.Extends u ∧ u = { t with indices := u.indices } ∧
      ∀ a ∈ l, u.hasIndexOver (index a).columnNames = true := by
  induction l generalizing t with
  | nil =>
    obtain rfl := Change.gives_forEach_nil.mp h
    exact ⟨.refl _, rfl, by simp⟩
  | cons a l ih =>
    obtain ⟨v, ha, hl⟩ := Change.gives_forEach_cons.mp h
    have hadd := hf a t v ha
    obtain ⟨hext, hidx, hrest⟩ := ih hl
    refine ⟨(Extends.of_addMissingIndex hadd).trans hext, ?_, fun b hb => ?_⟩
    · rw [hidx, addMissingIndex_indices hadd]
    rcases List.mem_cons.mp hb with rfl | hb
    · exact hext.hasIndexOver (hasIndexOver_addMissingIndex hadd)
    · exact hrest b hb

/-- The new indices are among those that were wanted. Each is over columns that had none before, and no two
    are over the same ones. -/
theorem gives_addMissingIndices_new {α : Type} {f : α → Edit Table Unit} (index : α → Index)
    (hf : ∀ a t u, (f a).Gives t () u → t.addMissingIndex (index a) = .ok u) {l : List α}
    (h : (Change.forEach f l).Gives t w u) :
    ∃ new, u.indices = t.indices ++ new ∧ (new.map (·.columnNames)).Nodup ∧
      ∀ j ∈ new, t.hasIndexOver j.columnNames = false ∧ ∃ a ∈ l, j = (index a).named t.name .index := by
  induction l generalizing t with
  | nil =>
    obtain rfl := Change.gives_forEach_nil.mp h
    exact ⟨[], by simp⟩
  | cons a l ih =>
    obtain ⟨v, ha, hl⟩ := Change.gives_forEach_cons.mp h
    obtain ⟨new, hu, hdistinct, hnew⟩ := ih hl
    rcases addMissingIndex_eq_ok.mp (hf a t v ha) with ⟨-, rfl⟩ | ⟨hmissing, hadd⟩
    · refine ⟨new, hu, hdistinct, fun j hj => ?_⟩
      obtain ⟨hfresh, b, hb, hjb⟩ := hnew j hj
      exact ⟨hfresh, b, List.mem_cons_of_mem _ hb, hjb⟩
    · obtain ⟨i, hi, rfl⟩ := addIndex_eq_ok.mp hadd
      obtain rfl := checkedIndex_named hi
      -- What is new later has columns that are new beside this index, too.
      have hlater : ∀ j ∈ new, t.hasIndexOver j.columnNames = false ∧ (index a).columnNames ≠ j.columnNames :=
        fun j hj => by
          obtain ⟨hfresh, -⟩ := hnew j hj
          simpa [hasIndexOver, Index.hasColumns] using hfresh
      refine ⟨(index a).named t.name .index :: new, by rw [hu]; simp, List.nodup_cons.mpr ⟨?_, hdistinct⟩, ?_⟩
      · rintro hmem
        obtain ⟨j, hj, hcolumns⟩ := List.mem_map.mp hmem
        exact (hlater j hj).2 hcolumns.symm
      · refine List.forall_mem_cons.mpr ⟨⟨hmissing, a, List.mem_cons_self, rfl⟩, fun j hj => ?_⟩
        obtain ⟨-, b, hb, hjb⟩ := hnew j hj
        exact ⟨(hlater j hj).1, b, List.mem_cons_of_mem _ hb, hjb⟩

/-! ### Heavy indices -/

theorem gives_addHeavyIndex {names : List String} :
    (addHeavyIndex names).Gives t w u ↔ t.addMissingIndex (Index.ofNames names) = .ok u := by
  rw [addMissingIndex_eq_ok, Index.columnNames_ofNames]
  simp only [addHeavyIndex, Change.gives_bind, Change.gives_get]
  cases h : t.hasIndexOver names <;> simp [h]

theorem gives_addHeavyIndices (h : addHeavyIndices.Gives t w u) :
    t.Extends u ∧ (t.isHeavyIndexing = true → ∀ names ∈ properSuffixes t.primaryKeyNames, u.hasIndexOver names = true) := by
  simp only [addHeavyIndices, Change.gives_bind, Change.gives_get] at h
  obtain ⟨_, _, ⟨rfl, rfl⟩, h⟩ := h
  split at h
  · obtain ⟨hext, -, hall⟩ := gives_addMissingIndices Index.ofNames
      (fun _ _ _ => gives_addHeavyIndex.mp) h
    exact ⟨hext, fun _ names hn => by simpa using hall names hn⟩
  · rename_i hheavy
    obtain ⟨-, rfl⟩ := Change.gives_pure.mp h
    exact ⟨.refl _, fun hh => absurd hh hheavy⟩

/-- A table that has all its heavy indices is left as it is. -/
theorem addHeavyIndices_self
    (h : t.isHeavyIndexing = true → ∀ names ∈ properSuffixes t.primaryKeyNames, t.hasIndexOver names = true) :
    addHeavyIndices.Gives t w t := by
  simp only [addHeavyIndices, Change.gives_bind, Change.gives_get]
  refine ⟨t, t, ⟨rfl, rfl⟩, ?_⟩
  split
  · rename_i hheavy
    refine Change.gives_forEach_self fun names hn => gives_addHeavyIndex.mpr ?_
    exact addMissingIndex_eq_ok.mpr (Or.inl ⟨by simpa using h hheavy names hn, rfl⟩)
  · exact Change.gives_pure.mpr ⟨rfl, rfl⟩

/-! ### The id method -/

theorem gives_dropUnusedIdMethod (h : dropUnusedIdMethod.Gives t w u) :
    t.Extends u ∧ (u.idMethod = .native → u.hasAutoIncrement = true) := by
  simp only [dropUnusedIdMethod, Change.gives_bind, Change.gives_get] at h
  obtain ⟨_, _, ⟨rfl, rfl⟩, h⟩ := h
  split at h
  · rename_i hdrop
    simp only [Bool.and_eq_true, decide_eq_true_eq, Bool.not_eq_true'] at hdrop
    simp only [Change.gives_bind, Change.gives_report, Change.gives_modify] at h
    obtain ⟨_, _, rfl, rfl⟩ := h
    exact ⟨.dropIdMethod hdrop.1 hdrop.2, fun hn => by simp [idMethod] at hn⟩
  · rename_i hkeep
    obtain ⟨-, rfl⟩ := Change.gives_pure.mp h
    refine ⟨.refl _, fun hn => ?_⟩
    simpa [hn] using hkeep

/-- A table whose id method has something to count is left as it is. -/
theorem dropUnusedIdMethod_self (h : t.idMethod = .native → t.hasAutoIncrement = true) :
    dropUnusedIdMethod.Gives t w t := by
  simp only [dropUnusedIdMethod, Change.gives_bind, Change.gives_get]
  refine ⟨t, t, ⟨rfl, rfl⟩, ?_⟩
  split
  · rename_i hdrop
    simp only [Bool.and_eq_true, decide_eq_true_eq, Bool.not_eq_true'] at hdrop
    rw [h hdrop.1] at hdrop
    exact absurd hdrop.2 (by simp)
  · exact Change.gives_pure.mpr ⟨rfl, rfl⟩

/-! ### Implicit keys -/

theorem isPlain_implicitColumn (key : String) (c : Column) : (implicitColumn key c).IsPlain :=
  ⟨rfl, rfl, rfl⟩

theorem gives_addImplicitColumn {key : String} {c : Column} :
    (addImplicitColumn key c).Gives t w u ↔ t.addColumn (implicitColumn key c) = .ok u := by
  have hname : (implicitColumn key c).name = implicitColumnName key c.name := rfl
  rw [addColumn_eq_ok, hname]
  simp only [addImplicitColumn, Change.gives_bind, Change.gives_get]
  cases h : t.hasColumn (implicitColumnName key c.name)
  · simp [h, addColumn_eq_ok, hname]
  · simp [h]

/-- A key gets its columns in the order of the foreign primary key. -/
theorem gives_addImplicitColumns {key : String} {pk : List Column}
    (h : (Change.forEach (addImplicitColumn key) pk).Gives t w u) :
    t.Extends u ∧ u = { t with columns := t.columns ++ pk.map (implicitColumn key) } := by
  induction pk generalizing t with
  | nil =>
    obtain rfl := Change.gives_forEach_nil.mp h
    exact ⟨.refl _, by simp⟩
  | cons c pk ih =>
    obtain ⟨v, hc, hrest⟩ := Change.gives_forEach_cons.mp h
    obtain ⟨hfresh, rfl⟩ := addColumn_eq_ok.mp (gives_addImplicitColumn.mp hc)
    obtain ⟨hext, rfl⟩ := ih hrest
    exact ⟨(Extends.addColumn (isPlain_implicitColumn key c) hfresh).trans hext, by simp⟩

theorem gives_completeKey {key : String} {pk : List Column} (h : (completeKey key pk).Gives t w u) :
    t.Extends u ∧ u.foreignKeys = modifyFirst (·.name == key)
      (fun k => { k with references := k.references ++ implicitReferences key pk }) t.foreignKeys := by
  simp only [completeKey, Change.gives_bind, Change.gives_modify] at h
  obtain ⟨_, v, hcols, rfl⟩ := h
  obtain ⟨hext, rfl⟩ := gives_addImplicitColumns hcols
  exact ⟨hext.trans .addReferences, rfl⟩

/-! ### Indices that a platform wants -/

theorem Extends.coversColumns (h : t.Extends u) {names : List String} (hn : t.coversColumns names = true) :
    u.coversColumns names = true := by
  obtain ⟨new, hidx⟩ := h.indices
  have huniq := congrArg Table.uniques h.fixed
  have huniq' : u.uniques = t.uniques := huniq
  simp only [Table.coversColumns, primaryKeyNames, h.primaryKey, ← hidx, huniq', List.any_append, Bool.or_eq_true] at hn ⊢
  rcases hn with (hn | hn) | hn
  · exact Or.inl (Or.inl hn)
  · exact Or.inl (Or.inr (Or.inl hn))
  · exact Or.inr hn

/-- An index over some columns serves look-ups on them. -/
theorem coversColumns_of_hasIndexOver {names : List String} (hne : names ≠ []) (h : t.hasIndexOver names = true) :
    t.coversColumns names = true := by
  obtain ⟨i, hi, hcols⟩ := List.any_eq_true.mp h
  have hcov : i.covers names = true := by
    have hcols' : i.columnNames = names := by simpa [Index.hasColumns] using hcols
    simp [Index.covers, hcols', hne]
  simp only [Table.coversColumns, Bool.or_eq_true]
  exact Or.inl (Or.inr (List.any_eq_true.mpr ⟨i, hi, hcov⟩))

/-- A key wants an index over its columns, unless there are none or they are covered. -/
theorem keyIndex?_eq_some {k : ForeignKey} {i : Index} : Platform.keyIndex? t k = some i ↔
    k.localColumns ≠ [] ∧ t.coversColumns k.localColumns = false ∧ i = t.indexOver "fi" k.localColumns := by
  have hkey : Platform.keyIndex? t k = if k.localColumns.isEmpty || t.coversColumns k.localColumns then none
      else some (t.indexOver "fi" k.localColumns) := by
    rw [indexOver_eq]
    rfl
  rw [hkey]
  cases hcovered : t.coversColumns k.localColumns with
  | true => simp
  | false => cases hnames : k.localColumns <;> simp [eq_comm]

theorem gives_addKeyIndex {i : Index} : (addKeyIndex i).Gives t w u ↔ t.addMissingIndex i = .ok u := by
  rw [addMissingIndex_eq_ok]
  simp only [addKeyIndex, Change.gives_bind, Change.gives_get]
  cases h : t.hasIndexOver i.columnNames <;> simp [h]

@[simp] theorem gives_warnWithoutKey : warnWithoutKey.Gives t w u ↔ u = t := by
  simp only [warnWithoutKey, Change.gives_bind, Change.gives_get]
  cases h : (!t.hasPrimaryKey && !t.referenceOnly) <;> simp [h]

end Table

end Schemata
