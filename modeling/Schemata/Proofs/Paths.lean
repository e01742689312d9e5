import Mathlib.Data.List.TakeWhile
import Schemata.Build.Schema

/-!
# Components of paths

Paths are compared by their components. What a path is made of from other paths follows their
components as well: the parent drops the last one, and a path behind another adds its own. So a file
name is looked for in the same place whatever text the location has (`resolveInclude_same`).
-/

namespace Schemata

namespace Path

/-! ### Pieces -/

theorem piecesAfter_eq (piece cs : List Char) :
    ∃ head tail, pieces cs = head :: tail ∧ piecesAfter piece cs = (piece.reverse ++ head) :: tail := by
  induction cs generalizing piece with
  | nil => exact ⟨[], [], rfl, by simp [piecesAfter]⟩
  | cons c cs ih =>
    unfold pieces piecesAfter
    by_cases hc : c = '/'
    · exact ⟨[], piecesAfter [] cs, by simp [hc], by simp [hc]⟩
    · obtain ⟨head, tail, hcs, hone⟩ := ih [c]
      obtain ⟨head', tail', hcs', hmore⟩ := ih (c :: piece)
      rw [hcs] at hcs'
      cases hcs'
      exact ⟨c :: head, tail, by simp [hc, hone], by simp [hc, hmore]⟩

theorem pieces_slash (cs : List Char) : pieces ('/' :: cs) = [] :: pieces cs := rfl

theorem pieces_cons {c : Char} (hc : c ≠ '/') (cs : List Char) :
    ∃ head tail, pieces cs = head :: tail ∧ pieces (c :: cs) = (c :: head) :: tail := by
  obtain ⟨head, tail, hcs, hmore⟩ := piecesAfter_eq [c] cs
  refine ⟨head, tail, hcs, ?_⟩
  rw [pieces, piecesAfter, if_neg hc]
  exact hmore

theorem pieces_append (xs ys : List Char) : pieces (xs ++ '/' :: ys) = pieces xs ++ pieces ys := by
  have hall : ∀ piece, piecesAfter piece (xs ++ '/' :: ys) = piecesAfter piece xs ++ pieces ys := by
    induction xs with
    | nil => simp [piecesAfter, pieces]
    | cons c xs ih =>
      intro piece
      rw [List.cons_append, piecesAfter, piecesAfter]
      split
      · rw [ih, List.cons_append]
      · exact ih _
  exact hall []

theorem pieces_of_not_mem {xs : List Char} (h : '/' ∉ xs) : pieces xs = [xs] := by
  have hall : ∀ piece, piecesAfter piece xs = [piece.reverse ++ xs] := by
    induction xs with
    | nil => simp [piecesAfter]
    | cons c xs ih =>
      intro piece
      have hc : c ≠ '/' := fun hc => h (hc ▸ List.mem_cons_self)
      have hxs : '/' ∉ xs := fun hmem => h (List.mem_cons_of_mem _ hmem)
      rw [piecesAfter, if_neg hc, ih hxs]
      simp
  exact hall []

theorem not_mem_of_mem_piecesAfter {start cs piece : List Char} (hstart : '/' ∉ start)
    (h : piece ∈ piecesAfter start cs) : '/' ∉ piece := by
  induction cs generalizing start with
  | nil =>
    obtain rfl := List.mem_singleton.mp h
    simpa using hstart
  | cons c cs ih =>
    rw [piecesAfter] at h
    split at h
    · rcases List.mem_cons.mp h with rfl | h
      · simpa using hstart
      · exact ih (by simp) h
    · rename_i hc
      exact ih (by simp [hstart, Ne.symm hc]) h

theorem pieces_intercalate {ks : List (List Char)} (hne : ks ≠ []) (h : ∀ k ∈ ks, '/' ∉ k) :
    pieces (List.intercalate ['/'] ks) = ks := by
  induction ks with
  | nil => exact absurd rfl hne
  | cons k ks ih =>
    have hk := pieces_of_not_mem (h k List.mem_cons_self)
    cases ks with
    | nil => rwa [List.intercalate_singleton]
    | cons l ks =>
      rw [List.intercalate_cons_cons, List.append_assoc, List.singleton_append, pieces_append, hk,
        ih (List.cons_ne_nil l ks) fun q hq => h q (List.mem_cons_of_mem _ hq)]
      rfl

theorem pieces_ne_nil (cs : List Char) : pieces cs ≠ [] := by
  obtain ⟨head, tail, h, -⟩ := piecesAfter_eq [] cs
  rw [h]
  exact List.cons_ne_nil _ _

theorem head?_pieces_append (xs ys : List Char) : (pieces (xs ++ '/' :: ys)).head? = (pieces xs).head? := by
  rw [pieces_append]
  cases hxs : pieces xs with
  | nil => exact absurd hxs (pieces_ne_nil xs)
  | cons piece rest => rfl

/-- A text starts with a slash when its first piece is empty and not the only one. -/
theorem head?_eq_slash_iff {cs : List Char} : cs.head? = some '/' ↔ ∃ piece rest, pieces cs = [] :: piece :: rest := by
  cases cs with
  | nil => simp [pieces, piecesAfter]
  | cons c cs =>
    by_cases hc : c = '/'
    · subst hc
      rw [pieces_slash]
      cases hcs : pieces cs with
      | nil => exact absurd hcs (pieces_ne_nil cs)
      | cons piece rest => simp
    · obtain ⟨head, tail, -, hfirst⟩ := pieces_cons hc cs
      simp [hc, hfirst]

/-! ### Components -/

/-- The components of a text apart from a root or a dot at its front. -/
def steps (cs : List Char) : List Component :=
  (pieces cs).filterMap component?

/-- The root or the dot at the front of a text. -/
def front (cs : List Char) : List Component :=
  if cs.head? = some '/' then [.root] else if (pieces cs).head? = some ['.'] then [.here] else []

theorem front_eq_nil {cs : List Char} : front cs = [] ↔ cs.head? ≠ some '/' ∧ (pieces cs).head? ≠ some ['.'] := by
  unfold front
  split
  · rename_i h
    simp [h]
  · rename_i h
    split
    · rename_i hdot
      simp [hdot]
    · rename_i hdot
      exact ⟨fun _ => ⟨h, hdot⟩, fun _ => rfl⟩

theorem components_eq (p : Path) : p.components = front p.text.toList ++ steps p.text.toList := by
  simp [components, front, steps, isAbsolute, startsHere]

theorem steps_append (xs ys : List Char) : steps (xs ++ '/' :: ys) = steps xs ++ steps ys := by
  rw [steps, pieces_append, List.filterMap_append, steps, steps]

@[simp] theorem steps_nil : steps [] = [] := rfl

theorem front_append_slash (xs ys : List Char) : front (xs ++ '/' :: ys) = front (xs ++ ['/']) := by
  have hhead : (xs ++ '/' :: ys).head? = (xs ++ ['/']).head? := by cases xs <;> rfl
  rw [front, front, hhead, head?_pieces_append, head?_pieces_append]

theorem front_slash {xs : List Char} (h : xs ≠ []) : front (xs ++ ['/']) = front xs := by
  have hhead : (xs ++ ['/']).head? = xs.head? := by
    cases xs with
    | nil => exact absurd rfl h
    | cons c xs => rfl
  rw [front, front, hhead, head?_pieces_append]

/-- Only the empty path has no components. -/
theorem components_eq_nil {p : Path} : p.components = [] ↔ p.text.toList = [] := by
  rw [components_eq, List.append_eq_nil_iff]
  constructor
  · rintro ⟨hfront, hsteps⟩
    cases hcs : p.text.toList with
    | nil => rfl
    | cons c cs =>
      rw [hcs] at hfront hsteps
      by_cases hc : c = '/'
      · simp [front, hc] at hfront
      · obtain ⟨head, tail, -, hfirst⟩ := pieces_cons hc cs
        by_cases hdot : c :: head = ['.']
        · simp [front, hc, hfirst, hdot] at hfront
        · have hsome : component? (c :: head) ≠ none := by
            unfold component?
            rw [if_neg (by simpa [isTrivial] using hdot)]
            split <;> simp
          rw [steps, hfirst, List.filterMap_cons] at hsteps
          split at hsteps
          · rename_i hnone
            exact absurd hnone hsome
          · cases hsteps
  · intro h
    rw [h]
    exact ⟨rfl, rfl⟩

/-! ### A path behind another -/

theorem components_join (p : Path) {q : Path} (hq : q.isAbsolute = false) :
    (p.join q).components = if p.components = [] then q.components else p.components ++ steps q.text.toList := by
  rw [join, if_neg (by simp [hq])]
  cases hlast : p.text.toList.getLast? with
  | none =>
    have hnil := List.getLast?_eq_none_iff.mp hlast
    rw [if_pos (components_eq_nil.mpr hnil)]
  | some c =>
    obtain ⟨xs, hxs⟩ := List.getLast?_eq_some_iff.mp hlast
    have hne : p.text.toList ≠ [] := by simp [hxs]
    rw [if_neg (mt components_eq_nil.mp hne)]
    dsimp only
    split
    · rename_i hc
      subst hc
      rw [components_eq, components_eq, String.toList_append, hxs, List.append_assoc, List.singleton_append,
        steps_append, front_append_slash, steps_append xs [], steps_nil, List.append_nil, List.append_assoc]
    · rw [components_eq, components_eq, String.toList_append, String.toList_append, List.append_assoc]
      show front (p.text.toList ++ '/' :: q.text.toList) ++ steps (p.text.toList ++ '/' :: q.text.toList) = _
      rw [front_append_slash, front_slash hne, steps_append, List.append_assoc]

/-! ### The parent -/

theorem component?_of_trivial {piece : List Char} (h : isTrivial piece = true) : component? piece = none := by
  rw [component?, if_pos h]

theorem component?_of_not_trivial {piece : List Char} (h : isTrivial piece = false) :
    ∃ c, component? piece = some c := by
  rw [component?, if_neg (by simp [h])]
  split
  · exact ⟨_, rfl⟩
  · exact ⟨_, rfl⟩

/-- Pieces that are dropped from the end of a list have no components. -/
theorem filterMap_dropWhile (ps : List (List Char)) :
    (ps.dropWhile isTrivial).reverse <+: ps.reverse ∧
      (ps.dropWhile isTrivial).reverse.filterMap component? = ps.reverse.filterMap component? := by
  have hsplit := List.takeWhile_append_dropWhile (p := isTrivial) (l := ps)
  have hnone : (ps.takeWhile isTrivial).reverse.filterMap component? = [] := by
    refine List.filterMap_eq_nil_iff.mpr fun piece hp => component?_of_trivial ?_
    exact List.mem_takeWhile_imp (List.mem_reverse.mp hp)
  have hrev : ps.reverse = (ps.dropWhile isTrivial).reverse ++ (ps.takeWhile isTrivial).reverse := by
    rw [← List.reverse_append, hsplit]
  rw [hrev]
  exact ⟨List.prefix_append _ _, by rw [List.filterMap_append, hnone, List.append_nil]⟩

/-- The pieces of a parent are the first ones of the path, and what is left out has one component. -/
theorem parent?_cases (p : Path) :
    p.parent?.getD ⟨""⟩ = ⟨""⟩ ∧ steps p.body.2 = [] ∨
      ∃ kept c, kept <+: pieces p.body.2 ∧ steps p.body.2 = kept.filterMap component? ++ [c] ∧
        p.parent? = some ⟨String.ofList (p.body.1 ++ List.intercalate ['/'] kept)⟩ := by
  obtain ⟨-, hsteps⟩ := filterMap_dropWhile (pieces p.body.2).reverse
  have hprefix := (filterMap_dropWhile (pieces p.body.2).reverse).1
  rw [List.reverse_reverse] at hsteps hprefix
  cases hdrop : (pieces p.body.2).reverse.dropWhile isTrivial with
  | nil =>
    left
    rw [hdrop] at hsteps
    refine ⟨?_, hsteps.symm⟩
    simp only [parent?, hdrop]
    split <;> rfl
  | cons last before =>
    right
    rw [hdrop] at hsteps hprefix
    obtain ⟨c, hc⟩ : ∃ c, component? last = some c := by
      have hlast := List.head?_dropWhile_not isTrivial (pieces p.body.2).reverse
      rw [hdrop] at hlast
      exact component?_of_not_trivial hlast
    obtain ⟨hkept, hcomps⟩ := filterMap_dropWhile before
    rw [List.reverse_cons] at hsteps hprefix
    refine ⟨(before.dropWhile isTrivial).reverse, c, hkept.trans ((List.prefix_append _ _).trans hprefix), ?_, ?_⟩
    · rw [steps, ← hsteps, List.filterMap_append, hcomps]
      simp [hc]
    · simp only [parent?, hdrop]

theorem steps_intercalate {ks : List (List Char)} (h : ∀ k ∈ ks, '/' ∉ k) :
    steps (List.intercalate ['/'] ks) = ks.filterMap component? := by
  cases ks with
  | nil => rfl
  | cons k ks => rw [steps, pieces_intercalate (List.cons_ne_nil k ks) h]

/-- The first pieces of a text without a root or a dot at its front have none either. -/
theorem front_intercalate {cs : List Char} (hcs : front cs = []) {ks : List (List Char)} (hks : ks <+: pieces cs)
    (h : ∀ k ∈ ks, '/' ∉ k) : front (List.intercalate ['/'] ks) = [] := by
  obtain ⟨rest, hrest⟩ := hks
  cases ks with
  | nil => rfl
  | cons k ks =>
    have hpieces := pieces_intercalate (List.cons_ne_nil k ks) h
    obtain ⟨hslash, hdot⟩ := front_eq_nil.mp hcs
    rw [ne_eq, head?_eq_slash_iff] at hslash
    rw [← hrest] at hslash hdot
    refine front_eq_nil.mpr ⟨?_, by rw [hpieces]; exact hdot⟩
    rw [ne_eq, head?_eq_slash_iff, hpieces]
    rintro ⟨piece, more, heq⟩
    exact hslash ⟨piece, more ++ rest, by rw [heq]; rfl⟩

theorem body_cases (p : Path) :
    (∃ cs, p.text.toList = '/' :: cs ∧ p.body = (['/'], cs)) ∨ (p.text.toList = ['.'] ∧ p.body = (['.'], [])) ∨
      (∃ cs, p.text.toList = '.' :: '/' :: cs ∧ p.body = (['.'], '/' :: cs)) ∨
      (front p.text.toList = [] ∧ p.body = ([], p.text.toList)) := by
  unfold body
  cases hcs : p.text.toList with
  | nil => exact .inr (.inr (.inr ⟨rfl, by simp⟩))
  | cons c cs =>
    by_cases hc : c = '/'
    · subst hc
      exact .inl ⟨cs, rfl, by simp [isAbsolute, hcs]⟩
    · obtain ⟨head, tail, hrest, hfirst⟩ := pieces_cons hc cs
      by_cases hdot : c :: head = ['.']
      · obtain ⟨rfl, rfl⟩ := List.cons.inj hdot
        have hhere : p.startsHere = true := by simp [startsHere, hcs, hfirst]
        cases cs with
        | nil => exact .inr (.inl ⟨rfl, by simp [hhere]⟩)
        | cons d cs =>
          by_cases hd : d = '/'
          · subst hd
            exact .inr (.inr (.inl ⟨cs, rfl, by simp [hhere]⟩))
          · obtain ⟨head', tail', -, hsecond⟩ := pieces_cons hd cs
            rw [hrest] at hsecond
            cases hsecond
      · have hnone : (p.isAbsolute || p.startsHere) = false := by
          simpa [isAbsolute, startsHere, hcs, hfirst, hc] using hdot
        exact .inr (.inr (.inr ⟨front_eq_nil.mpr (by simpa [hfirst, hc] using hdot), by simp [hnone]⟩))

/-- A path is its root or dot and the rest of it: the rest has all other components, and the root or
    dot stays in front of the first pieces of the rest. -/
theorem components_body (p : Path) {ks : List (List Char)} (hks : ks <+: pieces p.body.2) :
    steps p.text.toList = steps p.body.2 ∧
      (⟨String.ofList (p.body.1 ++ List.intercalate ['/'] ks)⟩ : Path).components =
        front p.text.toList ++ ks.filterMap component? := by
  have hslash : ∀ k ∈ ks, '/' ∉ k := fun k hk => not_mem_of_mem_piecesAfter (by simp) (hks.subset hk)
  rw [components_eq, String.toList_ofList, ← steps_intercalate hslash]
  rcases body_cases p with ⟨cs, hcs, hbody⟩ | ⟨hcs, hbody⟩ | ⟨cs, hcs, hbody⟩ | ⟨hfront, hbody⟩
  · rw [hcs, hbody]
    exact ⟨steps_append [] cs, congrArg _ (steps_append [] _)⟩
  · rw [hcs, hbody]
    rw [hbody] at hks
    refine ⟨rfl, ?_⟩
    cases ks with
    | nil => rfl
    | cons k ks =>
      obtain ⟨rfl, htail⟩ := List.cons_prefix_cons.mp hks
      obtain rfl := List.prefix_nil.mp htail
      rfl
  · rw [hcs, hbody]
    rw [hbody] at hks
    refine ⟨rfl, ?_⟩
    cases ks with
    | nil => rfl
    | cons k ks =>
      obtain ⟨rfl, -⟩ := List.cons_prefix_cons.mp hks
      cases ks with
      | nil => rfl
      | cons l ks => rfl
  · rw [hbody] at hks ⊢
    rw [hfront]
    exact ⟨rfl, by rw [List.nil_append, front_intercalate hfront hks hslash]⟩

theorem components_parent (p : Path) : (p.parent?.getD ⟨""⟩).components = p.components.dropLast := by
  rcases parent?_cases p with ⟨hparent, hsteps⟩ | ⟨kept, c, hkept, hsteps, hparent⟩
  · obtain ⟨hbody, -⟩ := components_body p List.nil_prefix
    have hfront : (front p.text.toList).dropLast = [] := by
      unfold front
      split
      · rfl
      · split <;> rfl
    rw [hparent, components_eq p, hbody, hsteps, List.append_nil, hfront]
    exact components_eq_nil.mpr rfl
  · obtain ⟨hbody, hcomps⟩ := components_body p hkept
    rw [hparent, Option.getD_some, hcomps, components_eq p, hbody, hsteps, ← List.append_assoc, List.dropLast_concat]

/-! ### The same file -/

theorem same_iff {p q : Path} : p.same q = true ↔ p.components = q.components := by
  rw [same, beq_iff_eq]

theorem same_refl (p : Path) : p.same p = true :=
  same_iff.mpr rfl

theorem any_same_eq_false {ps : List Path} {p : Path} :
    ps.any (·.same p) = false ↔ p.components ∉ ps.map components := by
  rw [List.any_eq_false, List.mem_map]
  constructor
  · rintro h ⟨q, hq, hqp⟩
    exact h q hq (same_iff.mpr hqp)
  · intro h q hq hqp
    exact h ⟨q, hq, same_iff.mp hqp⟩

end Path

theorem resolveInclude_some (file : Path) (filename : String) :
    resolveInclude (some file) filename =
      .ok (if (⟨filename⟩ : Path).isAbsolute then ⟨filename⟩ else (file.parent?.getD ⟨""⟩).join ⟨filename⟩) := by
  rw [apply_ite Except.ok]
  rfl

/-- An included file is in the same place beside either of two names of the file that includes it. -/
theorem resolveInclude_same {p q : Path} (h : p.components = q.components) (filename : String) :
    ∃ p' q', resolveInclude (some p) filename = .ok p' ∧ resolveInclude (some q) filename = .ok q' ∧
      p'.components = q'.components := by
  refine ⟨_, _, resolveInclude_some p filename, resolveInclude_some q filename, ?_⟩
  cases habs : (⟨filename⟩ : Path).isAbsolute with
  | true => rfl
  | false =>
    simp only [Bool.false_eq_true, if_false]
    rw [Path.components_join _ habs, Path.components_join _ habs, Path.components_parent, Path.components_parent, h]

end Schemata
