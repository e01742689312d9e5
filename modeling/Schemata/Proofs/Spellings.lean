import Mathlib.Data.List.Induction
import Schemata.Proofs.Includes

/-!
# Spellings of a path

Two paths lead to the same file when they differ in dots, and in directories that are left again at once by
a pair of dots. They may still have different components, which is what the include rules go by. Where an
include leads depends only on where the file leads in which it stands, and where its filename leads, as long
as files end in names (`target?_congr`).
-/

namespace Schemata

open Relation

namespace Path

/-! ### Where a path leads -/

/-- One step further on a way whose last step stands first. A dot leads nowhere, and a pair of dots leaves the
    directory that was entered last. -/
def advance : List Component → Component → List Component
  | before, .here => before
  | .name _ :: before, .up => before
  | before, c => c :: before

/-- Where a path leads, with the last step first. -/
def destination (p : Path) : List Component :=
  p.components.foldl advance []

theorem advance_cases (before : List Component) (c : Component) :
    (c = .here ∧ advance before c = before) ∨ (c = .up ∧ ∃ n, before = .name n :: advance before c) ∨
      advance before c = c :: before := by
  cases c with
  | here => exact .inl ⟨rfl, by cases before <;> rfl⟩
  | up =>
    rcases before with _ | ⟨d, before⟩
    · exact .inr (.inr rfl)
    · cases d with
      | name n => exact .inr (.inl ⟨rfl, n, rfl⟩)
      | root | here | up => exact .inr (.inr rfl)
  | root | name => exact .inr (.inr (by cases before <;> rfl))

/-- From any place on, steps lead where those lead that are left of them. -/
theorem foldl_advance (before cs : List Component) :
    cs.foldl advance before = (cs.foldl advance []).reverse.foldl advance before := by
  induction cs using List.reverseRecOn with
  | nil => rfl
  | append_singleton cs c ih =>
    rw [List.foldl_append, List.foldl_append, List.foldl_cons, List.foldl_nil, List.foldl_cons, List.foldl_nil, ih]
    rcases advance_cases (cs.foldl advance []) c with ⟨rfl, hc⟩ | ⟨rfl, n, hc⟩ | hc
    · rw [hc]
      cases (cs.foldl advance []).reverse.foldl advance before <;> rfl
    · rw [hc, List.reverse_cons, List.foldl_append, ← hc]
      generalize (advance (cs.foldl advance []) .up).reverse.foldl advance before = here
      cases here <;> rfl
    · rw [hc, List.reverse_cons, List.foldl_append]
      rfl

theorem destination_congr {p q : Path} (h : p.components = q.components) : p.destination = q.destination := by
  rw [destination, h, destination]

theorem mem_advance_root (before : List Component) (c : Component) :
    .root ∈ advance before c ↔ .root ∈ before ∨ c = .root := by
  rcases advance_cases before c with ⟨rfl, hc⟩ | ⟨rfl, n, hc⟩ | hc
  · simp [hc]
  · generalize advance before .up = left at hc ⊢
    simp [hc]
  · simp [hc, or_comm, eq_comm]

theorem mem_foldl_advance_root (before cs : List Component) :
    .root ∈ cs.foldl advance before ↔ .root ∈ before ∨ .root ∈ cs := by
  induction cs generalizing before with
  | nil => simp
  | cons c cs ih => rw [List.foldl_cons, ih, mem_advance_root, List.mem_cons, or_assoc, eq_comm (a := c)]

theorem root_not_mem_steps (cs : List Char) : .root ∉ steps cs := by
  intro h
  obtain ⟨piece, -, hpiece⟩ := List.mem_filterMap.mp h
  unfold component? at hpiece
  split at hpiece
  · cases hpiece
  · split at hpiece <;> cases hpiece

theorem root_mem_destination {p : Path} : .root ∈ p.destination ↔ p.isAbsolute = true := by
  rw [destination, mem_foldl_advance_root, components_eq, List.mem_append]
  simp only [List.not_mem_nil, root_not_mem_steps, or_false, false_or]
  by_cases h : p.text.toList.head? = some '/'
  · simp [front, isAbsolute, h]
  · rw [isAbsolute, beq_iff_eq, iff_false_right h, front, if_neg h]
    split <;> simp

theorem isAbsolute_congr {p q : Path} (h : p.destination = q.destination) : p.isAbsolute = q.isAbsolute := by
  rw [Bool.eq_iff_iff, ← root_mem_destination, ← root_mem_destination, h]

/-! ### Joins and parents -/

theorem front_of_relative {p : Path} (hp : p.isAbsolute = false) :
    front p.text.toList = [] ∨ front p.text.toList = [.here] := by
  have hslash : p.text.toList.head? ≠ some '/' := by simpa [isAbsolute] using hp
  rw [front, if_neg hslash]
  split
  · exact .inr rfl
  · exact .inl rfl

/-- A relative path behind another leads on from there. -/
theorem destination_join (p : Path) {q : Path} (hq : q.isAbsolute = false) :
    (p.join q).destination = q.components.foldl advance p.destination := by
  rw [destination, components_join p hq]
  split
  · rename_i hp
    rw [destination, hp]
    rfl
  · rw [List.foldl_append, ← destination, components_eq q, List.foldl_append]
    rcases front_of_relative hq with hfront | hfront
    · rw [hfront, List.foldl_nil]
    · rw [hfront, List.foldl_cons, List.foldl_nil]
      cases p.destination <;> rfl

theorem destination_join_congr {p p' q q' : Path} (hp : p.destination = p'.destination) (hq : q.isAbsolute = false)
    (h : q.destination = q'.destination) : (p.join q).destination = (p'.join q').destination := by
  have hq' : q'.isAbsolute = false := isAbsolute_congr h ▸ hq
  rw [destination_join p hq, destination_join p' hq', hp, foldl_advance p'.destination q.components,
    foldl_advance p'.destination q'.components]
  exact congrArg (fun steps => steps.reverse.foldl advance p'.destination) h

def endsInName (p : Path) : Bool :=
  match p.components.getLast? with
  | some (.name _) => true
  | _ => false

theorem endsInName_iff {p : Path} : p.endsInName = true ↔ ∃ cs n, p.components = cs ++ [.name n] := by
  unfold endsInName
  constructor
  · intro h
    split at h
    · rename_i n hlast
      obtain ⟨cs, hcs⟩ := List.getLast?_eq_some_iff.mp hlast
      exact ⟨cs, n, hcs⟩
    · cases h
  · rintro ⟨cs, n, hcs⟩
    rw [hcs, List.getLast?_concat]

theorem endsInName_congr {p q : Path} (h : p.components = q.components) : p.endsInName = q.endsInName := by
  rw [endsInName, h, endsInName]

/-- The directory of a file is where the last step of its path was made from. -/
theorem destination_parent {p : Path} (hp : p.endsInName = true) :
    (p.parent?.getD ⟨""⟩).destination = p.destination.tail := by
  obtain ⟨cs, n, hcs⟩ := endsInName_iff.mp hp
  rw [destination, components_parent, destination, hcs, List.dropLast_concat, List.foldl_append]
  cases cs.foldl advance [] <;> rfl

theorem endsInName_join (p : Path) {q : Path} (hq : q.isAbsolute = false) (h : q.endsInName = true) :
    (p.join q).endsInName = true := by
  rw [endsInName_iff] at h ⊢
  obtain ⟨cs, n, hcs⟩ := h
  rw [components_join p hq]
  split
  · exact ⟨cs, n, hcs⟩
  · rw [components_eq] at hcs
    rcases front_of_relative hq with hfront | hfront
    · rw [hfront, List.nil_append] at hcs
      exact ⟨p.components ++ cs, n, by rw [hcs, List.append_assoc]⟩
    · rw [hfront] at hcs
      rcases cs with _ | ⟨c, cs⟩
      · cases hcs
      · obtain ⟨-, htail⟩ := List.cons.inj hcs
        have htail' : steps q.text.toList = cs ++ [.name n] := htail
        exact ⟨p.components ++ cs, n, by rw [htail', List.append_assoc]⟩

end Path

/-! ### Where includes lead -/

/-- Where an include of the file `x` leads. -/
def IncludeDecl.target? (x : Option Path) (i : IncludeDecl) : Option (List Component) :=
  (resolveInclude x i.filename).toOption.map Path.destination

theorem resolveInclude_of_absolute (x : Option Path) {filename : String} (h : (⟨filename⟩ : Path).isAbsolute = true) :
    resolveInclude x filename = .ok ⟨filename⟩ :=
  if_pos h

theorem resolveInclude_none {filename : String} (h : (⟨filename⟩ : Path).isAbsolute = false) :
    resolveInclude none filename = .error (.load ⟨filename⟩ .noLocation) :=
  if_neg (by simp [h])

theorem endsInName_resolveInclude {x : Option Path} {filename : String} {p : Path}
    (hname : (⟨filename⟩ : Path).endsInName = true) (h : resolveInclude x filename = .ok p) : p.endsInName = true := by
  cases habs : (⟨filename⟩ : Path).isAbsolute with
  | true =>
    rw [resolveInclude_of_absolute x habs] at h
    cases h
    exact hname
  | false =>
    cases x with
    | none =>
      rw [resolveInclude_none habs] at h
      cases h
    | some file =>
      rw [resolveInclude_some, if_neg (by simp [habs])] at h
      cases h
      exact Path.endsInName_join _ habs hname

/-- Filenames that lead to the same place lead to the same file beside two spellings of a file. -/
theorem IncludeDecl.target?_congr {x x' : Option Path} {i i' : IncludeDecl}
    (hx : x.map Path.destination = x'.map Path.destination) (hfile : ∀ p, x = some p → p.endsInName = true)
    (hfile' : ∀ p, x' = some p → p.endsInName = true)
    (h : (⟨i.filename⟩ : Path).destination = (⟨i'.filename⟩ : Path).destination) : i.target? x = i'.target? x' := by
  have habsolute := Path.isAbsolute_congr h
  unfold target?
  cases habs : (⟨i.filename⟩ : Path).isAbsolute with
  | true =>
    rw [resolveInclude_of_absolute x habs, resolveInclude_of_absolute x' (habsolute ▸ habs)]
    exact congrArg some h
  | false =>
    have habs' : (⟨i'.filename⟩ : Path).isAbsolute = false := habsolute ▸ habs
    cases x with
    | none =>
      cases x' with
      | none =>
        rw [resolveInclude_none habs, resolveInclude_none habs']
        rfl
      | some p' => cases hx
    | some p =>
      cases x' with
      | none => cases hx
      | some p' =>
        rw [resolveInclude_some, if_neg (by simp [habs]), resolveInclude_some, if_neg (by simp [habs'])]
        refine congrArg some (Path.destination_join_congr ?_ habs h)
        rw [Path.destination_parent (hfile p rfl), Path.destination_parent (hfile' p' rfl), Option.some.inj hx]

end Schemata
