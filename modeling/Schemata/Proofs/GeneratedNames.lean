import Schemata.Proofs.Failures
import Schemata.Proofs.Declared

/-!
# Names that are generated

A name is generated from the table, a marker for the kind of index and the columns, with underscores between
them. Names of different kinds differ, and so do names of one kind unless the columns have the same text.
Different lists of columns can have the same text, since a column may have an underscore of its own
(`Clashes`): that is the only way in which generated names get in each other's way.
-/

namespace Schemata

/-! ### Texts -/

/-- Different lists of names that have the same text have a name with an underscore. -/
theorem exists_underscore {a b : List String} (ha : a ≠ []) (hb : b ≠ []) (hne : a ≠ b)
    (h : "_".intercalate a = "_".intercalate b) : ∃ name ∈ a ++ b, '_' ∈ name.toList := by
  by_contra hnone
  have hplain : ∀ name ∈ a ++ b, '_' ∉ name.toList := fun name hname hmem => hnone ⟨name, hname, hmem⟩
  -- Without one, the text can be taken apart again.
  have hsplit : ∀ l : List String, l ≠ [] → l ⊆ a ++ b →
      ("_".intercalate l).toList.splitOn '_' = l.map String.toList := by
    intro l hl hsub
    rw [String.toList_intercalate]
    refine List.splitOn_intercalate '_' ?_ (by simpa using hl)
    intro cs hcs
    obtain ⟨name, hname, rfl⟩ := List.mem_map.mp hcs
    exact hplain name (hsub hname)
  have hchars : a.map String.toList = b.map String.toList := by
    rw [← hsplit a ha (List.subset_append_left a b), ← hsplit b hb (List.subset_append_right a b), h]
  exact hne (List.map_injective_iff.mpr (fun _ _ => String.toList_inj.mp) hchars)

/-! ### Kinds of names -/

/-- What a name is generated for: an index, a unique constraint or the index for a foreign key. -/
inductive NameKind where
  | index
  | unique
  | key
deriving DecidableEq

namespace NameKind

def marker : NameKind → String
  | index => "i"
  | unique => "u"
  | key => "fi"

end NameKind

def generatedName (table : String) (kind : NameKind) (columns : List String) : String :=
  table ++ "_" ++ kind.marker ++ "_" ++ "_".intercalate columns

variable {table : String} {kind other : NameKind} {a b : List String}

/-- A name tells its kind, and the text of its columns. -/
theorem generatedName_inj :
    generatedName table kind a = generatedName table other b ↔
      kind = other ∧ "_".intercalate a = "_".intercalate b := by
  constructor
  · intro h
    simp only [generatedName, String.append_assoc, String.append_right_inj] at h
    by_cases hkind : kind = other
    · subst hkind
      exact ⟨rfl, by simpa using h⟩
    · -- The markers begin with different letters.
      have hchars := congrArg String.toList h
      cases kind <;> cases other <;> simp [NameKind.marker] at hkind hchars
  · rintro ⟨rfl, h⟩
    rw [generatedName, h, generatedName]

/-! ### Clashes -/

/-- A name is generated in a table for two different lists of columns of one kind, both of which are wanted. They
    have the same text, so one of the columns has an underscore. -/
def Clashes (wants : NameKind → List String → Prop) (table name : String) : Prop :=
  ∃ kind a b, wants kind a ∧ wants kind b ∧ a ≠ b ∧ name = generatedName table kind a ∧
    name = generatedName table kind b ∧ ∃ column ∈ a ++ b, '_' ∈ column.toList

variable {wants wants' : NameKind → List String → Prop} {name : String}

theorem Clashes.intro (ha : wants kind a) (hb : wants kind b) (ha' : a ≠ []) (hb' : b ≠ []) (hne : a ≠ b)
    (h : generatedName table kind b = generatedName table kind a) : Clashes wants table (generatedName table kind a) :=
  ⟨kind, a, b, ha, hb, hne, rfl, h.symm, exists_underscore ha' hb' hne (generatedName_inj.mp h).2.symm⟩

/-- An error about the name of an index is about a table and a name of which `C` holds. -/
def Error.IsClash (C : String → String → Prop) (e : Error) : Prop :=
  ∀ name owner, e = .constraint (.duplicateIndexName name owner) → C owner name

open Error (IsClash Allows)

theorem Error.IsClash.mono {C C' : String → String → Prop} (hC : ∀ owner name, C owner name → C' owner name) {e : Error}
    (h : IsClash C e) : IsClash C' e :=
  fun name owner he => hC owner name (h name owner he)

instance (C : String → String → Prop) : Allows (IsClash C) where
  ordinary e he := by
    rintro name owner rfl
    exact absurd he id

/-- The names that clash in one table. -/
def ClashesIn (wants : NameKind → List String → Prop) (table owner name : String) : Prop :=
  owner = table ∧ Clashes wants table name

/-! ### Indices under generated names -/

namespace Index

/-- The index has a name that was generated for its columns, which are wanted. -/
structure IsNamed (wants : NameKind → List String → Prop) (table : String) (kind : NameKind) (i : Index) : Prop where
  wanted : wants kind i.columnNames
  columns : i.columnNames ≠ []
  name : i.ownName = some (generatedName table kind i.columnNames)

/-- An index that has no name gets the one that is generated for its columns. -/
theorem name_named_of_none {i : Index} (h : i.ownName = none) :
    (i.named table .index).name = generatedName table .index i.columnNames ∧
      (i.named table .unique).name = generatedName table .unique i.columnNames := by
  simp [named, Index.name, h, defaultName, generatedName, IndexKind.marker, NameKind.marker]

theorem IsNamed.mono {i : Index} (hwants : wants kind i.columnNames → wants' kind i.columnNames)
    (h : i.IsNamed wants table kind) : i.IsNamed wants' table kind :=
  ⟨hwants h.wanted, h.columns, h.name⟩

end Index

namespace Table

/-- Where the indices stand whose names are of a kind. -/
def among (t : Table) : NameKind → List Index
  | .unique => t.uniques
  | _ => t.indices

/-- All indices of the table have generated names, for columns that are wanted. -/
def NamedFor (wants : NameKind → List String → Prop) (t : Table) : Prop :=
  ∀ i ∈ t.indices ++ t.uniques, ∃ kind, i ∈ t.among kind ∧ i.IsNamed wants t.name kind

variable {t u : Table} {i j : Index}

namespace NamedFor

theorem mono (h : t.NamedFor wants)
    (hwants : ∀ kind, ∀ i ∈ t.among kind, wants kind i.columnNames → wants' kind i.columnNames) :
    t.NamedFor wants' := by
  intro i hi
  obtain ⟨kind, hamong, hi⟩ := h i hi
  exact ⟨kind, hamong, hi.mono (hwants kind i hamong)⟩

/-- Only the name of the table and its indices matter. -/
theorem congr (h : t.NamedFor wants) (hname : u.name = t.name) (hindices : u.indices = t.indices)
    (huniques : u.uniques = t.uniques) : u.NamedFor wants := by
  intro i hi
  rw [hindices, huniques] at hi
  obtain ⟨kind, hamong, hi⟩ := h i hi
  refine ⟨kind, ?_, hname ▸ hi⟩
  cases kind <;> simpa [among, hindices, huniques] using hamong

/-- An index that is added keeps this, under a name that was generated for it. -/
theorem append (h : t.NamedFor wants) (hname : u.name = t.name) (hold : ∀ kind, t.among kind ⊆ u.among kind)
    (hnew : ∀ i ∈ u.indices ++ u.uniques, i ∈ t.indices ++ t.uniques ∨
      ∃ kind, i ∈ u.among kind ∧ i.IsNamed wants t.name kind) : u.NamedFor wants := by
  intro i hi
  rcases hnew i hi with hi | hi
  · obtain ⟨kind, hamong, hi⟩ := h i hi
    exact ⟨kind, hold kind hamong, hname ▸ hi⟩
  · exact hname ▸ hi

theorem appendIndex (h : t.NamedFor wants) (hkind : kind ≠ .unique) (hj : j.IsNamed wants t.name kind) :
    NamedFor wants { t with indices := t.indices ++ [j] } := by
  refine h.append rfl ?_ ?_
  · intro kind
    cases kind with
    | unique => exact List.Subset.refl _
    | _ => exact List.subset_append_left _ _
  · intro i hi
    simp only [List.append_assoc, List.mem_append, List.mem_singleton] at hi
    rcases hi with hi | rfl | hi
    · exact .inl (List.mem_append_left _ hi)
    · refine .inr ⟨kind, ?_, hj⟩
      cases kind with
      | unique => exact absurd rfl hkind
      | _ => exact List.mem_append_right _ (List.mem_singleton_self _)
    · exact .inl (List.mem_append_right _ hi)

theorem appendUnique (h : t.NamedFor wants) (hj : j.IsNamed wants t.name .unique) :
    NamedFor wants { t with uniques := t.uniques ++ [j] } := by
  refine h.append rfl ?_ ?_
  · intro kind
    cases kind with
    | unique => exact List.subset_append_left _ _
    | _ => exact List.Subset.refl _
  · intro i hi
    simp only [List.mem_append, List.mem_singleton] at hi
    rcases hi with hi | hi | rfl
    · exact .inl (List.mem_append_left _ hi)
    · exact .inl (List.mem_append_right _ hi)
    · exact .inr ⟨.unique, List.mem_append_right _ (List.mem_singleton_self _), hj⟩

end NamedFor

/-! ### Adding an index -/

/-- A generated name that is taken clashes, if no index of its kind is over the same columns. -/
theorem NamedFor.clashes_of_taken (h : t.NamedFor wants) (ha : wants kind a) (hne : a ≠ [])
    (hnew : ∀ j ∈ t.among kind, j.columnNames ≠ a) (htaken : t.hasIndexName (generatedName t.name kind a) = true) :
    Clashes wants t.name (generatedName t.name kind a) := by
  obtain ⟨j, hj, hsame⟩ : ∃ j ∈ t.indices ++ t.uniques, j.name = generatedName t.name kind a := by
    simpa [hasIndexName, or_and_right, exists_or] using htaken
  obtain ⟨other, hamong, hnamed⟩ := h j hj
  rw [Index.name, hnamed.name, Option.getD_some] at hsame
  -- Names of different kinds differ.
  obtain rfl := (generatedName_inj.mp hsame).1
  exact .intro ha hnamed.wanted hne hnamed.columns (hnew j hamong).symm hsame

/-- An index that would get a generated name is refused for its name only where that name clashes. -/
theorem NamedFor.checkedIndex_fails (h : t.NamedFor wants) {place : IndexKind}
    (hname : (i.named t.name place).name = generatedName t.name kind i.columnNames)
    (hwants : wants kind i.columnNames) (hnew : ∀ j ∈ t.among kind, j.columnNames ≠ i.columnNames) :
    FailsWithin (IsClash (ClashesIn wants t.name)) (t.checkedIndex place i) := by
  unfold checkedIndex
  split
  · simp
  · rename_i hcolumns
    have hne : i.columnNames ≠ [] := by simpa [Index.columnNames] using hcolumns
    split
    · simp
    · dsimp only
      split
      · rename_i htaken
        rintro name owner heq
        cases heq
        refine ⟨rfl, ?_⟩
        show Clashes wants t.name (i.named t.name place).name
        rw [hname]
        exact h.clashes_of_taken hwants hne hnew (hname ▸ htaken)
      · trivial

/-- The index that is added has the name that was generated for it. -/
theorem isNamed_of_checkedIndex {place : IndexKind}
    (hname : (i.named t.name place).name = generatedName t.name kind i.columnNames)
    (hwants : wants kind i.columnNames) (h : t.checkedIndex place i = .ok j) : j.IsNamed wants t.name kind := by
  have hne : i.columnNames ≠ [] := by
    rintro hnil
    have hempty : i.columns = [] := by simpa [Index.columnNames] using hnil
    rw [checkedIndex, hempty] at h
    cases h
  obtain rfl := checkedIndex_named h
  exact ⟨hwants, hne, congrArg some hname⟩

/-- What the addition of an index gives, for which a name of a kind is generated: it fails for a clash only, and
    it puts the index behind those of its kind. -/
structure AddsNamed (wants : NameKind → List String → Prop) (kind : NameKind) (t : Table) (i : Index)
    (x : Except Error Table) : Prop where
  fails : FailsWithin (IsClash (ClashesIn wants t.name)) x
  named : ∀ u, x = .ok u → u.NamedFor wants
  name : ∀ u, x = .ok u → u.name = t.name
  among : ∀ u, x = .ok u → (u.among kind).map (·.columnNames) = (t.among kind).map (·.columnNames) ++ [i.columnNames]

theorem addsNamed_addIndex (h : t.NamedFor wants) (hkind : kind ≠ .unique)
    (hname : (i.named t.name .index).name = generatedName t.name kind i.columnNames)
    (hwants : wants kind i.columnNames) (hnew : ∀ j ∈ t.among kind, j.columnNames ≠ i.columnNames) :
    AddsNamed wants kind t i (t.addIndex i) where
  fails := by
    rw [addIndex, failsWithin_map]
    exact h.checkedIndex_fails hname hwants hnew
  named u hu := by
    obtain ⟨j, hj, rfl⟩ := addIndex_eq_ok.mp hu
    exact h.appendIndex hkind (isNamed_of_checkedIndex hname hwants hj)
  name u hu := by
    obtain ⟨j, -, rfl⟩ := addIndex_eq_ok.mp hu
    rfl
  among u hu := by
    obtain ⟨j, hj, rfl⟩ := addIndex_eq_ok.mp hu
    obtain rfl := checkedIndex_named hj
    cases kind with
    | unique => exact absurd rfl hkind
    | _ => simp [Table.among]

theorem addsNamed_addUnique (h : t.NamedFor wants)
    (hname : (i.named t.name .unique).name = generatedName t.name .unique i.columnNames)
    (hwants : wants .unique i.columnNames) (hnew : ∀ j ∈ t.uniques, j.columnNames ≠ i.columnNames) :
    AddsNamed wants .unique t i (t.addUnique i) where
  fails := by
    rw [addUnique, failsWithin_map]
    exact h.checkedIndex_fails hname hwants hnew
  named u hu := by
    obtain ⟨j, hj, rfl⟩ := addUnique_eq_ok.mp hu
    exact h.appendUnique (isNamed_of_checkedIndex hname hwants hj)
  name u hu := by
    obtain ⟨j, -, rfl⟩ := addUnique_eq_ok.mp hu
    rfl
  among u hu := by
    obtain ⟨j, hj, rfl⟩ := addUnique_eq_ok.mp hu
    obtain rfl := checkedIndex_named hj
    simp [Table.among]

end Table

end Schemata
