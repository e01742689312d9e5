import Schemata.Proofs.Consistency
import Schemata.Proofs.Operations

/-!
# Copies of tables

A copy of a table under a new name is like the table in all that does not depend on the name, and its
keys and behaviors are its own. The names of its indices are distinct with one exception: names that
begin with the name of the table follow the copy, and one that does may meet one that stays.
-/

namespace Schemata

namespace Table

/-! ### Names that follow a table -/

/-- What the name of an index becomes in a copy. -/
def renamed (old new name : String) : String :=
  if (old ++ "_").toList.isPrefixOf name.toList then
    new ++ "_" ++ String.ofList (name.toList.drop (old ++ "_").toList.length)
  else name

section renamed
variable {old new name rest : String} {names : List String}

@[simp] theorem renamed_follows : renamed old new (old ++ "_" ++ rest) = new ++ "_" ++ rest := by
  have hprefix : (old ++ "_").toList.isPrefixOf (old ++ "_" ++ rest).toList = true := by
    rw [String.toList_append (s := old ++ "_"), List.isPrefixOf_iff_prefix]
    exact List.prefix_append _ _
  unfold renamed
  rw [if_pos hprefix, String.toList_append (s := old ++ "_"), List.drop_left, String.ofList_toList]

theorem renamed_stays (h : ∀ rest, name ≠ old ++ "_" ++ rest) : renamed old new name = name := by
  unfold renamed
  refine if_neg fun hprefix => ?_
  obtain ⟨rest, hrest⟩ := List.isPrefixOf_iff_prefix.mp hprefix
  refine h (String.ofList rest) (String.toList_inj.mp ?_)
  rw [String.toList_append (s := old ++ "_"), String.toList_ofList, hrest]

/-- A name that follows the copy meets one that stays: both have the same rest, one behind the old name and one
    behind the new name. -/
def Clash (old new : String) (names : List String) : Prop :=
  ∃ rest, old ++ "_" ++ rest ∈ names ∧ new ++ "_" ++ rest ∈ names ∧ ∀ tail, new ++ "_" ++ rest ≠ old ++ "_" ++ tail

/-- Names that follow the copy or stay remain distinct, unless two of them clash. -/
theorem nodup_map_renamed (h : names.Nodup) : (names.map (renamed old new)).Nodup ↔ ¬Clash old new names := by
  rw [List.nodup_map_iff_inj_on h]
  constructor
  · rintro hinj ⟨rest, hold, hnew, hstays⟩
    refine hstays rest (hinj _ hold _ hnew ?_).symm
    rw [renamed_follows, renamed_stays hstays]
  · intro hclash x hx y hy hxy
    rcases Classical.em (∃ rest, x = old ++ "_" ++ rest) with ⟨r, rfl⟩ | hx' <;>
      rcases Classical.em (∃ rest, y = old ++ "_" ++ rest) with ⟨s, rfl⟩ | hy'
    · -- Both follow.
      rw [renamed_follows, renamed_follows] at hxy
      rw [(String.append_right_inj _).mp hxy]
    · have hstays := not_exists.mp hy'
      rw [renamed_follows, renamed_stays hstays] at hxy
      exact absurd ⟨r, hx, hxy ▸ hy, fun tail => hxy ▸ hstays tail⟩ hclash
    · have hstays := not_exists.mp hx'
      rw [renamed_follows, renamed_stays hstays] at hxy
      exact absurd ⟨s, hy, hxy ▸ hx, fun tail => hxy ▸ hstays tail⟩ hclash
    · rwa [renamed_stays (not_exists.mp hx'), renamed_stays (not_exists.mp hy')] at hxy

/-- A new name that begins with the old one leaves nothing to clash. -/
theorem not_clash_of_begins (h : new ++ "_" = old ++ "_" ++ rest) : ¬Clash old new names := by
  rintro ⟨r, -, -, hstays⟩
  exact hstays (rest ++ r) (by rw [h, String.append_assoc])

end renamed

/-- Nothing but the name of an index changes in a copy. -/
theorem renamedIndex_eq (old new : String) (i : Index) :
    renamedIndex old new i = { i with ownName := i.ownName.map (renamed old new) } := by
  unfold renamedIndex renamed
  cases hname : i.ownName with
  | none => exact congrArg (fun n => { i with ownName := n }) hname
  | some name =>
    dsimp only [Option.map_some]
    split
    · rfl
    · rw [← hname]

theorem name_renamedIndex {old new : String} {i : Index} (h : i.ownName.isSome = true) :
    (renamedIndex old new i).name = renamed old new i.name := by
  obtain ⟨name, hname⟩ := Option.isSome_iff_exists.mp h
  rw [renamedIndex_eq, Index.name, Index.name, hname]
  rfl

/-! ### What a copy has of its table -/

/-- The names of the indices and of the unique constraints. -/
def indexNames (t : Table) : List String :=
  (t.indices ++ t.uniques).map (·.name)

/-- The table without its name, without what carries or follows the name, and without what is derived. -/
def nameless (t : Table) : Table :=
  { t.clearReferrers with
    name := ""
    ownSqlName := none
    ownCodeName := none
    containsForeignKey := false
    foreignKeys := t.foreignKeys.map ({ · with table := "" })
    behaviors := t.behaviors.map ({ · with table := none, executed := false })
    indices := t.indices.map ({ · with ownName := none })
    uniques := t.uniques.map ({ · with ownName := none }) }

/-- A table under a name that is otherwise like `t`, consistent, and as if it was new: its behaviors wait, and
    there are no back edges. -/
structure IsCopy (t : Table) (name : String) (u : Table) : Prop extends u.Consistent where
  name_eq : u.name = name
  nameless_eq : u.nameless = t.nameless
  named : ∀ i ∈ u.indices ++ u.uniques, i.ownName.isSome = true
  waiting : ∀ b ∈ u.behaviors, b.executed = false
  referrers : u.referrers = []
  columnReferrers : ∀ c ∈ u.columns, c.referrers = []
  containsForeignKey : u.containsForeignKey = false

variable {t : Table} {name : String}

theorem nameless_duplicate (t : Table) (name : String) : (t.duplicate name).nameless = t.nameless := by
  have hindices : ∀ is : List Index, (is.map (renamedIndex t.name name)).map ({ · with ownName := none }) =
      is.map ({ · with ownName := none }) := by
    intro is
    rw [List.map_map]
    exact List.map_congr_left fun i _ => by rw [Function.comp, renamedIndex_eq]
  have hcolumns : (t.columns.map (·.clearReferrers)).map (·.clearReferrers) = t.columns.map (·.clearReferrers) := by
    simp [Column.clearReferrers]
  simp only [nameless, duplicate, clearReferrers, hindices, hcolumns, List.map_map, Function.comp_def,
    Behavior.forTable]

theorem indexNames_duplicate (h : ∀ i ∈ t.indices ++ t.uniques, i.ownName.isSome = true) :
    (t.duplicate name).indexNames = t.indexNames.map (renamed t.name name) := by
  have hdup : (t.duplicate name).indexNames =
      ((t.indices ++ t.uniques).map (renamedIndex t.name name)).map (·.name) := by
    rw [List.map_append]
    rfl
  rw [hdup, indexNames, List.map_map, List.map_map]
  exact List.map_congr_left fun i hi => name_renamedIndex (h i hi)

/-- The copy of a consistent table is consistent. -/
theorem Consistent.duplicate (h : t.Consistent) (name : String) : (t.duplicate name).Consistent := by
  have hcolumns : (t.duplicate name).columns.map (·.name) = t.columns.map (·.name) := by
    simp [Table.duplicate, clearReferrers, Column.clearReferrers, Function.comp_def]
  have hsupports : ∀ is : List Index, (∀ i ∈ is, t.Supports i) →
      ∀ i ∈ is.map (renamedIndex t.name name), (t.duplicate name).Supports i := by
    intro is his
    refine List.forall_mem_map.mpr fun i hi => ?_
    exact Archivable.supports_renamedIndex (his i hi) (hcolumns ▸ List.Subset.refl _)
  refine ⟨⟨hcolumns ▸ h.columns, ?_⟩, ?_, hsupports _ h.indices, hsupports _ h.uniques, ?_, ?_⟩
  · simpa [Table.duplicate, Function.comp_def] using h.foreignKeys
  · simpa [Table.duplicate, Behavior.forTable, Function.comp_def] using h.behaviors
  · exact List.forall_mem_map.mpr fun _ _ => rfl
  · exact List.forall_mem_map.mpr fun _ _ => rfl

theorem WellFormed.isCopy (h : t.WellFormed) (name : String) : t.IsCopy name (t.duplicate name) where
  toConsistent := h.toConsistent.duplicate name
  name_eq := rfl
  nameless_eq := nameless_duplicate t name
  named := by
    have hdup : (t.duplicate name).indices ++ (t.duplicate name).uniques =
        (t.indices ++ t.uniques).map (renamedIndex t.name name) := List.map_append.symm
    rw [hdup]
    refine List.forall_mem_map.mpr fun i hi => ?_
    rw [renamedIndex_eq, Option.isSome_map]
    exact h.named i hi
  waiting := List.forall_mem_map.mpr fun _ _ => rfl
  referrers := rfl
  columnReferrers := List.forall_mem_map.mpr fun _ _ => rfl
  containsForeignKey := rfl

/-- Whatever operations have made a table from a well-formed one, its copy is as it should be but for the names of
    indices: they are distinct exactly where none that follows the copy meets one that stays. -/
theorem duplicate_isCopy {start : Table} (hstart : start.WellFormed) (ops : List Operation) (name : String) :
    let t := runAll Operation.run start ops
    t.IsCopy name (t.duplicate name) ∧
      ((t.duplicate name).indexNames.Nodup ↔ ¬Clash t.name name t.indexNames) := by
  intro t
  have ht : t.WellFormed := operations.kept ops (fun _ _ => trivial) start hstart
  refine ⟨ht.isCopy name, ?_⟩
  rw [indexNames_duplicate ht.named]
  exact nodup_map_renamed ht.indexNames

/-- A book, and operations that give it two indices whose names agree behind the first word. -/
def shelving : List Operation :=
  [.addColumn { name := "id", domain := { type := .integer }, primaryKey := true, notNull := true },
   .addColumn { name := "title" },
   .addForeignKey { name := "author", target := "person" },
   .addIndex { ownName := some "book_x", columns := [{ name := "id" }] },
   .addIndex { ownName := some "old_x", columns := [{ name := "title" }] },
   .addUnique (.ofNames ["id", "title"]),
   .addBehavior { name := "timestampable", id := "timestampable", executed := true }]

theorem duplicate_isCopy_shelving :
    WellFormed { name := "book" } ∧
      let t := runAll Operation.run { name := "book" } shelving
      ¬Clash t.name "book_archive" t.indexNames ∧
      t.IsCopy "book_archive" (t.duplicate "book_archive") ∧ (t.duplicate "book_archive").indexNames.Nodup := by
  have hempty := wellFormed_empty "book"
  have hcopy := duplicate_isCopy hempty shelving "book_archive"
  have hclash : ¬Clash "book" "book_archive" (runAll Operation.run { name := "book" } shelving).indexNames :=
    not_clash_of_begins (show "book_archive" ++ "_" = "book" ++ "_" ++ "archive_" from rfl)
  exact ⟨hempty, hclash, hcopy.1, hcopy.2.mpr hclash⟩

/-- The copy under the name `old` has two indices of one name. -/
theorem duplicate_repeats_name :
    let t := runAll Operation.run { name := "book" } shelving
    t.WellFormed ∧ t.indexNames = ["book_x", "old_x", "book_u_id_title"] ∧
      (t.duplicate "old").indexNames = ["old_x", "old_x", "old_u_id_title"] := by
  decide

end Table

end Schemata
