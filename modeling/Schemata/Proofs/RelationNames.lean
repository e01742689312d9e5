import Schemata.Naming
import Schemata.Proofs.GeneratedNames
import Schemata.Proofs.StudlyCase

/-!
# Names of relations

Foreign keys of one table to the same table are told apart by their columns, in studly case and one after
another. Keys over different columns can get the same name that way, since neither the case of a name nor its
end are kept. Among plain names, it takes a column of more than one word and a key with more than one column.
-/

namespace Schemata

open Text

namespace Table

variable {t : Table} {k l : ForeignKey}

/-- Two foreign keys of a table to the same table over different columns, with no names for the relations. -/
structure Parallel (t : Table) (k l : ForeignKey) : Prop where
  left : k ∈ t.foreignKeys
  right : l ∈ t.foreignKeys
  sameTarget : k.target = l.target
  columns : k.localColumns ≠ l.localColumns
  explicit : k.localColumns ≠ [] ∧ l.localColumns ≠ []
  unnamed : k.codeName = none ∧ l.codeName = none
  reverseUnnamed : k.reverseCodeName = none ∧ l.reverseCodeName = none

/-- The accessors of two keys get different names on either side. -/
def Distinguishes (t : Table) (k l : ForeignKey) : Prop :=
  t.relationName k ≠ t.relationName l ∧ t.reverseRelationName k ≠ t.reverseRelationName l

theorem two_le_length {α : Type} {a b : α} {as : List α} (ha : a ∈ as) (hb : b ∈ as) (hne : a ≠ b) :
    2 ≤ as.length := by
  match as, ha, hb with
  | [c], ha, hb => exact absurd ((List.mem_singleton.mp ha).trans (List.mem_singleton.mp hb).symm) hne
  | _ :: _ :: rest, _, _ => simp

namespace Parallel

theorem symm (h : Parallel t k l) : Parallel t l k where
  left := h.right
  right := h.left
  sameTarget := h.sameTarget.symm
  columns := h.columns.symm
  explicit := h.explicit.symm
  unnamed := h.unnamed.symm
  reverseUnnamed := h.reverseUnnamed.symm

/-- A key that is not the only one to its table is told apart by its columns. -/
theorem relationSuffix_eq (h : Parallel t k l) : t.relationSuffix k = "RelatedBy" ++ studlyCases k.localColumns := by
  have hne : k ≠ l := fun heq => h.columns (heq ▸ rfl)
  have hk : k ∈ t.foreignKeys.filter (·.target == k.target) := List.mem_filter.mpr ⟨h.left, by simp⟩
  have hl : l ∈ t.foreignKeys.filter (·.target == k.target) :=
    List.mem_filter.mpr ⟨h.right, by simp [h.sameTarget]⟩
  have hsiblings := two_le_length hk hl hne
  rw [relationSuffix, if_neg (by omega), studlyCases]

theorem relationName_eq (h : Parallel t k l) :
    t.relationName k = studlyCase k.target ++ ("RelatedBy" ++ studlyCases k.localColumns) := by
  rw [relationName, h.unnamed.1, h.relationSuffix_eq]

theorem reverseRelationName_eq (h : Parallel t k l) :
    t.reverseRelationName k = t.codeName ++ ("RelatedBy" ++ studlyCases k.localColumns) := by
  rw [reverseRelationName, h.reverseUnnamed.1, h.relationSuffix_eq]

theorem relationName_eq_iff (h : Parallel t k l) :
    t.relationName k = t.relationName l ↔ studlyCases k.localColumns = studlyCases l.localColumns := by
  rw [h.relationName_eq, h.symm.relationName_eq, h.sameTarget, String.append_right_inj, String.append_right_inj]

theorem reverseRelationName_eq_iff (h : Parallel t k l) :
    t.reverseRelationName k = t.reverseRelationName l ↔ studlyCases k.localColumns = studlyCases l.localColumns := by
  rw [h.reverseRelationName_eq, h.symm.reverseRelationName_eq, String.append_right_inj, String.append_right_inj]

/-- On both sides the names are told apart by the columns in studly case. -/
theorem distinguishes_iff (h : Parallel t k l) :
    t.Distinguishes k l ↔ studlyCases k.localColumns ≠ studlyCases l.localColumns := by
  rw [Distinguishes, Ne, Ne, h.relationName_eq_iff, h.reverseRelationName_eq_iff, and_self]

/-- Plain names tell keys apart unless they are the same with underscores between them. -/
theorem distinguishes_iff_of_plain (h : Parallel t k l)
    (hplain : ∀ c ∈ k.localColumns ++ l.localColumns, isPlain c = true) :
    t.Distinguishes k l ↔ "_".intercalate k.localColumns ≠ "_".intercalate l.localColumns := by
  obtain ⟨hk, hl⟩ := List.forall_mem_append.mp hplain
  rw [h.distinguishes_iff, Ne, studlyCases_eq_iff h.explicit.1 h.explicit.2 hk hl]

end Parallel

/-- The relations of parallel keys clash on one side where they do on the other, which is where their columns are
    the same in studly case. This needs columns with the same letters, apart from case and separators; if they have
    plain names, it needs one that has an underscore and keys that do not both have a single column. -/
theorem relations_clash_iff (h : Parallel t k l) :
    (t.relationName k = t.relationName l ↔ t.reverseRelationName k = t.reverseRelationName l) ∧
      (t.Distinguishes k l ↔ studlyCases k.localColumns ≠ studlyCases l.localColumns) ∧
      ((∀ c ∈ k.localColumns ++ l.localColumns, ∀ x ∈ c.toList, isPrintableAscii x = true) →
        k.localColumns.flatMap letters ≠ l.localColumns.flatMap letters → t.Distinguishes k l) ∧
      ((∀ c ∈ k.localColumns ++ l.localColumns, isPlain c = true) →
        (t.Distinguishes k l ↔ "_".intercalate k.localColumns ≠ "_".intercalate l.localColumns) ∧
        ((∀ c ∈ k.localColumns ++ l.localColumns, '_' ∉ c.toList) → t.Distinguishes k l) ∧
        (k.localColumns.length = 1 → l.localColumns.length = 1 → t.Distinguishes k l)) := by
  refine ⟨h.relationName_eq_iff.trans h.reverseRelationName_eq_iff.symm, h.distinguishes_iff, ?_, fun hplain => ?_⟩
  · intro hprintable hne
    obtain ⟨hk, hl⟩ := List.forall_mem_append.mp hprintable
    refine h.distinguishes_iff.mpr fun heq => hne ?_
    rw [← letters_studlyCases hk, ← letters_studlyCases hl, heq]
  · have hiff := h.distinguishes_iff_of_plain hplain
    refine ⟨hiff, fun hnone => hiff.mpr fun heq => ?_, fun hk hl => hiff.mpr fun heq => h.columns ?_⟩
    · obtain ⟨c, hc, hunder⟩ := exists_underscore h.explicit.1 h.explicit.2 h.columns heq
      exact hnone c hc hunder
    · obtain ⟨c, hc⟩ := List.length_eq_one_iff.mp hk
      obtain ⟨d, hd⟩ := List.length_eq_one_iff.mp hl
      rw [hc, hd] at heq ⊢
      simpa using heq

def author : ForeignKey where
  name := "author"
  target := "person"
  references := [⟨"author_id", "id"⟩]

def editor : ForeignKey where
  name := "editor"
  target := "person"
  references := [⟨"editor_id", "id"⟩]

/-- Books, each by one person and edited by another. -/
def book : Table where
  name := "book"
  columns := [{ name := "author_id" }, { name := "editor_id" }]
  foreignKeys := [author, editor]

theorem relations_clash_iff_book : Parallel book author editor ∧ book.Distinguishes author editor := by
  have hparallel : Parallel book author editor := by constructor <;> decide
  obtain ⟨-, -, -, hplain⟩ := relations_clash_iff hparallel
  exact ⟨hparallel, (hplain (by decide)).2.2 rfl rfl⟩

def start : ForeignKey where
  name := "start"
  target := "stop"
  references := [⟨"from_line", "line"⟩, ⟨"no", "no"⟩]

def finish : ForeignKey where
  name := "finish"
  target := "stop"
  references := [⟨"from", "line"⟩, ⟨"line_no", "no"⟩]

/-- Trips between two stops, each of which has a number on a line. -/
def trip : Table where
  name := "trip"
  columns := [{ name := "from_line" }, { name := "no" }, { name := "from" }, { name := "line_no" }]
  foreignKeys := [start, finish]

/-- The keys of a trip are over different columns, and no two of these have the same name in code, but the relations
    of the keys have. -/
theorem relation_names_coincide :
    (trip.columns.map (·.name)).Nodup ∧ (trip.columns.map (·.codeName)).Nodup ∧
      (trip.foreignKeys.map (·.name)).Nodup ∧
      (∀ c ∈ start.localColumns ++ finish.localColumns, trip.hasColumn c = true) ∧ Parallel trip start finish ∧
      trip.relationName start = trip.relationName finish ∧
      trip.reverseRelationName start = trip.reverseRelationName finish := by
  have hparallel : Parallel trip start finish := by constructor <;> decide
  exact ⟨by decide, by decide +kernel, by decide, by decide, hparallel, by decide +kernel, by decide +kernel⟩

end Table

end Schemata
