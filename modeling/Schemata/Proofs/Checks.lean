import Schemata.Proofs.Change

/-!
# Checks that a run meets

A run that looks for faults as it goes meets conditions in an order that can be told beforehand. It ends
with the fault of the first one that does not hold, and succeeds where all of them hold. The lists of checks
of the parts of a run are appended to the list of the whole.
-/

namespace Schemata

variable {ε σ α β φ : Type}

/-- A condition, and what is wrong where it does not hold. -/
structure Check (φ : Type) where
  holds : Bool
  fault : φ
deriving DecidableEq, Repr

/-- The fault of the first check that does not hold. -/
def firstFault? (cs : List (Check φ)) : Option φ :=
  (cs.find? (!·.holds)).map (·.fault)

theorem firstFault?_append (cs ds : List (Check φ)) :
    firstFault? (cs ++ ds) = (firstFault? cs).or (firstFault? ds) := by
  rw [firstFault?, List.find?_append, firstFault?, firstFault?]
  cases cs.find? (!·.holds) <;> rfl

theorem firstFault?_eq_none {cs : List (Check φ)} : firstFault? cs = none ↔ ∀ c ∈ cs, c.holds = true := by
  simp [firstFault?]

namespace Change

/-- From `s`, the change meets these checks in their order. -/
structure Meets (err : φ → ε) (c : Change ε σ α) (s : σ) (cs : List (Check φ)) : Prop where
  succeeds : firstFault? cs = none → ∃ a t, c.Gives s a t
  fails : ∀ f, firstFault? cs = some f → (c s).result = .error (err f)

variable {err : φ → ε} {c : Change ε σ α} {s : σ} {a : α} {t : σ} {cs ds : List (Check φ)} {f : φ}

namespace Meets

theorem gives_iff (h : c.Meets err s cs) : (∃ a t, c.Gives s a t) ↔ firstFault? cs = none := by
  refine ⟨fun ⟨a, t, hok, _⟩ => ?_, h.succeeds⟩
  cases hf : firstFault? cs with
  | none => rfl
  | some f =>
    rw [h.fails f hf] at hok
    cases hok

theorem error_iff (h : c.Meets err s cs) {e : ε} :
    (c s).result = .error e ↔ ∃ f, firstFault? cs = some f ∧ e = err f := by
  constructor
  · intro he
    cases hf : firstFault? cs with
    | none =>
      obtain ⟨a, t, hok, _⟩ := h.succeeds hf
      rw [hok] at he
      cases he
    | some f =>
      rw [h.fails f hf] at he
      exact ⟨f, rfl, (Except.error.inj he).symm⟩
  · rintro ⟨f, hf, rfl⟩
    exact h.fails f hf

/-- A change that succeeds meets no checks. -/
theorem of_gives (h : c.Gives s a t) : c.Meets err s [] where
  succeeds _ := ⟨a, t, h⟩
  fails _ hf := nomatch hf

theorem fail (f : φ) : (fail (err f) : Change ε σ α).Meets err s [⟨false, f⟩] where
  succeeds hf := nomatch hf
  fails _ hf := by
    cases hf
    rfl

/-- A change that depends on one condition. -/
theorem attempt {g : σ → Except ε σ} {ok : Bool} (h : g s = if ok then .ok t else .error (err f)) :
    (Change.attempt g).Meets err s [⟨ok, f⟩] := by
  cases ok with
  | true => exact ⟨fun _ => ⟨(), t, gives_attempt.mpr h⟩, fun _ hf => nomatch hf⟩
  | false =>
    refine ⟨fun hf => (nomatch hf), fun f' hf => ?_⟩
    cases hf
    rw [Change.attempt, h]
    rfl

/-- A check that holds goes unnoticed. -/
theorem cons_true (h : c.Meets err s cs) (f : φ) : c.Meets err s (⟨true, f⟩ :: cs) :=
  ⟨h.succeeds, h.fails⟩

/-- A change that fails for its first check meets none of the later ones. -/
theorem cons_false (h : (c s).result = .error (err f)) (cs : List (Check φ)) : c.Meets err s (⟨false, f⟩ :: cs) where
  succeeds hf := nomatch hf
  fails _ hf := by
    cases hf
    exact h

theorem bind {g : α → Change ε σ β} (h : c.Meets err s cs) (hg : ∀ a t, c.Gives s a t → (g a).Meets err t ds) :
    (c >>= g).Meets err s (cs ++ ds) := by
  have key : (c >>= g) s = Change.bind c g s := rfl
  constructor
  · intro hf
    rw [firstFault?_append, Option.or_eq_none_iff] at hf
    obtain ⟨a, t, hc⟩ := h.succeeds hf.1
    obtain ⟨b, u, hb⟩ := (hg a t hc).succeeds hf.2
    exact ⟨b, u, gives_bind.mpr ⟨a, t, hc, hb⟩⟩
  · intro f hf
    rw [firstFault?_append, Option.or_eq_some_iff] at hf
    rw [key, Change.bind]
    rcases hf with hf | ⟨hcs, hf⟩
    · rw [h.fails f hf]
    · obtain ⟨a, t, hc⟩ := h.succeeds hcs
      rw [hc.1]
      exact (hg a _ ⟨hc.1, rfl⟩).fails f hf

/-- A first change that succeeds is passed over. -/
theorem after {g : α → Change ε σ β} (h : c.Gives s a t) (hg : (g a).Meets err t cs) : (c >>= g).Meets err s cs :=
  (of_gives h).bind fun a' t' h' => by
    obtain ⟨rfl, rfl⟩ := h.unique h'
    exact hg

/-- A last change that succeeds is passed over. -/
theorem before {g : α → Change ε σ β} (h : c.Meets err s cs) (hg : ∀ a t, c.Gives s a t → ∃ b u, (g a).Gives t b u) :
    (c >>= g).Meets err s cs := by
  have hbind : (c >>= g).Meets err s (cs ++ []) := h.bind fun a t hc => by
    obtain ⟨b, u, hb⟩ := hg a t hc
    exact .of_gives hb
  rwa [List.append_nil] at hbind

theorem of_get {g : σ → Change ε σ β} (h : (g s).Meets err s cs) : (Change.get >>= g).Meets err s cs :=
  after (gives_get.mpr ⟨rfl, rfl⟩) h

/-- A change that looks for the first of several names that are not `ok`, and fails for it, checks each name. -/
theorem of_find? {names : List β} {ok : β → Bool} {fault : β → φ} (hnone : names.find? (!ok ·) = none → c.Meets err s cs)
    (hsome : ∀ name, names.find? (!ok ·) = some name → (c s).result = .error (err (fault name))) :
    c.Meets err s ((names.map fun name => ⟨ok name, fault name⟩) ++ cs) := by
  induction names with
  | nil => exact hnone rfl
  | cons name names ih =>
    rw [List.find?_cons] at hnone hsome
    rw [List.map_cons, List.cons_append]
    cases hok : ok name with
    | true =>
      simp only [hok, Bool.not_true] at hnone hsome
      exact (ih hnone hsome).cons_true _
    | false =>
      simp only [hok, Bool.not_false] at hsome
      exact .cons_false (hsome name rfl) _

/-- The steps of a loop meet their checks one after another, where each keeps `I`. -/
theorem forEach {I : σ → Prop} {checks : β → List (Check φ)} {g : β → Change ε σ Unit} {l : List β}
    (step : ∀ b ∈ l, ∀ s, I s → (g b).Meets err s (checks b) ∧ ∀ t, (g b).Gives s () t → I t) (start : I s) :
    (Change.forEach g l).Meets err s (l.flatMap checks) := by
  induction l generalizing s with
  | nil => exact .of_gives (gives_forEach_nil (u := ()).mpr rfl)
  | cons b l ih =>
    obtain ⟨hb, hkeep⟩ := step b List.mem_cons_self s start
    rw [List.flatMap_cons]
    exact hb.bind fun _ t ht => ih (fun b hb => step b (List.mem_cons_of_mem _ hb)) (hkeep t ht)

/-- The steps of a loop over the first `n` positions meet their checks one after another, where the step at a
    position takes what holds there to what holds at the next one. -/
theorem forEach_range {checks : Nat → List (Check φ)} {g : Nat → Change ε σ Unit} {n : Nat} (I : Nat → σ → Prop)
    (step : ∀ pos < n, ∀ s, I pos s → (g pos).Meets err s (checks pos) ∧ ∀ t, (g pos).Gives s () t → I (pos + 1) t)
    (start : I 0 s) : (Change.forEach g (List.range n)).Meets err s ((List.range n).flatMap checks) := by
  -- From any position on, since the first step of a loop leads to the second position.
  have hfrom : ∀ k pos s, pos + k = n → I pos s →
      (Change.forEach g (List.range' pos k)).Meets err s ((List.range' pos k).flatMap checks) := by
    intro k
    induction k with
    | zero => exact fun pos s _ _ => .of_gives (gives_forEach_nil (u := ()).mpr rfl)
    | succ k ih =>
      intro pos s hpos hs
      obtain ⟨hstep, hnext⟩ := step pos (by omega) s hs
      rw [List.range'_succ, List.flatMap_cons]
      exact hstep.bind fun _ t ht => ih (pos + 1) t (by omega) (hnext t ht)
  rw [List.range_eq_range']
  exact hfrom n 0 s (Nat.zero_add n) start

end Meets

end Change

end Schemata
