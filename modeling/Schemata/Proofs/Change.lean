import Mathlib.Data.List.Forall2
import Schemata.Change

/-!
# What a change gives

A change that succeeds takes a state to a value and another state (`Gives`). Each way of putting
changes together has one lemma that says when the whole succeeds; a proof about a change takes it
apart by these lemmas and never unfolds it.
-/

namespace Schemata.Change

variable {ε σ τ α β : Type}

/-- Change `c`, started in `s`, succeeds with the value `a` and leaves `t`. -/
def Gives (c : Change ε σ α) (s : σ) (a : α) (t : σ) : Prop :=
  (c s).result = .ok a ∧ (c s).state = t

/-- A change gives one value and one state. -/
theorem Gives.unique {c : Change ε σ α} {s t u : σ} {a b : α} (h : c.Gives s a t) (h' : c.Gives s b u) :
    b = a ∧ u = t :=
  ⟨Except.ok.inj (h'.1.symm.trans h.1), h'.2.symm.trans h.2⟩

/-! ### Single changes -/

section Single
variable {s t : σ} {a b : α} {u : Unit}

@[simp] theorem gives_pure : (pure a : Change ε σ α).Gives s b t ↔ b = a ∧ t = s := by
  constructor
  · rintro ⟨hr, hs⟩
    exact ⟨(Except.ok.inj hr).symm, hs.symm⟩
  · rintro ⟨rfl, rfl⟩
    exact ⟨rfl, rfl⟩

@[simp] theorem gives_get {v : σ} : (get : Change ε σ σ).Gives s v t ↔ v = s ∧ t = s := by
  constructor
  · rintro ⟨hr, hs⟩
    exact ⟨(Except.ok.inj hr).symm, hs.symm⟩
  · rintro ⟨rfl, rfl⟩
    exact ⟨rfl, rfl⟩

@[simp] theorem gives_modify {f : σ → σ} : (modify f : Change ε σ Unit).Gives s u t ↔ t = f s :=
  ⟨fun h => h.2.symm, fun h => ⟨rfl, h.symm⟩⟩

@[simp] theorem gives_report {e : Event} : (report e : Change ε σ Unit).Gives s u t ↔ t = s :=
  ⟨fun h => h.2.symm, fun h => ⟨rfl, h.symm⟩⟩

@[simp] theorem not_gives_fail {e : ε} : ¬(fail e : Change ε σ α).Gives s a t := by
  rintro ⟨hr, -⟩
  cases hr

@[simp] theorem gives_ofExcept {x : Except ε α} : (ofExcept x).Gives s a t ↔ x = .ok a ∧ t = s := by
  cases x with
  | ok b =>
    show (pure b : Change ε σ α).Gives s a t ↔ _
    rw [gives_pure, Except.ok.injEq, eq_comm]
  | error e =>
    show (fail e : Change ε σ α).Gives s a t ↔ _
    simp

@[simp] theorem gives_attempt {f : σ → Except ε σ} : (attempt f).Gives s u t ↔ f s = .ok t := by
  unfold Gives attempt
  cases f s with
  | ok v => simp
  | error e => simp

end Single

/-! ### One change after another -/

@[simp] theorem bind_eq (c : Change ε σ α) (f : α → Change ε σ β) : Change.bind c f = c >>= f := rfl

@[simp] theorem pure_eq (a : α) : (Change.pure a : Change ε σ α) = pure a := rfl

@[simp] theorem gives_bind {c : Change ε σ α} {f : α → Change ε σ β} {s u : σ} {b : β} :
    (c >>= f).Gives s b u ↔ ∃ a t, c.Gives s a t ∧ (f a).Gives t b u := by
  have key : (c >>= f) s = Change.bind c f s := rfl
  unfold Gives
  rw [key, Change.bind]
  cases hr : (c s).result with
  | ok a =>
    constructor
    · intro h
      exact ⟨a, (c s).state, ⟨rfl, rfl⟩, h⟩
    · rintro ⟨a', t, ⟨ha, rfl⟩, h⟩
      rw [← Except.ok.inj ha] at h
      exact h
  | error e =>
    constructor
    · rintro ⟨h, -⟩
      cases h
    · rintro ⟨a', t, ⟨ha, -⟩, -⟩
      cases ha

/-- An error of the first change ends both. -/
theorem result_bind_error {c : Change ε σ α} {f : α → Change ε σ β} {s : σ} {e : ε} (h : (c s).result = .error e) :
    ((c >>= f) s).result = .error e := by
  show (Change.bind c f s).result = _
  rw [Change.bind, h]

section Parts
variable {s t : σ} {a : α} {u : Unit}

@[simp] theorem gives_within {part : σ → τ} {put : τ → σ → σ} {c : Change ε τ α} :
    (within part put c).Gives s a t ↔ ∃ v, c.Gives (part s) a v ∧ t = put v s := by
  constructor
  · rintro ⟨hr, rfl⟩
    exact ⟨_, ⟨hr, rfl⟩, rfl⟩
  · rintro ⟨v, ⟨hr, rfl⟩, rfl⟩
    exact ⟨hr, rfl⟩

theorem gives_starting {t v : τ} {c : Change ε τ α} {u w : σ} :
    (starting t c).Gives u (a, v) w ↔ c.Gives t a v ∧ w = u := by
  unfold Gives starting
  cases hr : (c t).result with
  | ok b =>
    simp only [hr, Except.ok.injEq, Prod.mk.injEq]
    exact ⟨fun ⟨⟨hb, hv⟩, hw⟩ => ⟨⟨hb, hv⟩, hw.symm⟩, fun ⟨⟨hb, hv⟩, hw⟩ => ⟨⟨hb, hv⟩, hw.symm⟩⟩
  | error e => simp [hr]

@[simp] theorem gives_atPosition {pos : Nat} {c : Change ε σ Unit} {ss ts : List σ} :
    (atPosition pos c).Gives ss u ts ↔
      (ss[pos]? = none ∧ ts = ss) ∨ ∃ s t, ss[pos]? = some s ∧ c.Gives s () t ∧ ts = ss.set pos t := by
  unfold Gives atPosition
  cases hs : ss[pos]? with
  | none => simp [eq_comm]
  | some s => simp [eq_comm]

end Parts

/-! ### Lists -/

section Lists
variable {s t : σ} {u : Unit} {f : α → Change ε σ Unit}

@[simp] theorem gives_forEach_nil : (forEach f []).Gives s u t ↔ t = s := by
  simp [forEach]

@[simp] theorem gives_forEach_cons {a : α} {l : List α} :
    (forEach f (a :: l)).Gives s u t ↔ ∃ v, (f a).Gives s () v ∧ (forEach f l).Gives v () t := by
  simp only [forEach, bind_eq, gives_bind]
  exact ⟨fun ⟨_, v, ha, hl⟩ => ⟨v, ha, hl⟩, fun ⟨v, ha, hl⟩ => ⟨(), v, ha, hl⟩⟩

theorem gives_forEach_append {l m : List α} :
    (forEach f (l ++ m)).Gives s u t ↔ ∃ v, (forEach f l).Gives s () v ∧ (forEach f m).Gives v () t := by
  induction l generalizing s with
  | nil => simp
  | cons a l ih =>
    simp only [List.cons_append, gives_forEach_cons, ih]
    constructor
    · rintro ⟨v, ha, w, hl, hm⟩
      exact ⟨w, ⟨v, ha, hl⟩, hm⟩
    · rintro ⟨w, ⟨v, ha, hl⟩, hm⟩
      exact ⟨v, ha, w, hl, hm⟩

/-- What relates the states before and after each step relates those before and after all of them. -/
theorem Gives.forEach {R : σ → σ → Prop} (refl : ∀ s, R s s) (trans : ∀ {s t v}, R s t → R t v → R s v)
    {l : List α} (step : ∀ a ∈ l, ∀ s t, (f a).Gives s () t → R s t) (h : (forEach f l).Gives s u t) :
    R s t := by
  induction l generalizing s with
  | nil => exact gives_forEach_nil.mp h ▸ refl s
  | cons a l ih =>
    obtain ⟨v, ha, hl⟩ := gives_forEach_cons.mp h
    have hl' := ih (fun b hb => step b (List.mem_cons_of_mem _ hb)) hl
    exact trans (step a List.mem_cons_self _ _ ha) hl'

/-- A change that keeps the state as it is for every item keeps it for the list. -/
theorem gives_forEach_self {l : List α} (step : ∀ a ∈ l, (f a).Gives s () s) : (forEach f l).Gives s u s := by
  induction l with
  | nil => simp
  | cons a l ih =>
    exact gives_forEach_cons.mpr ⟨s, step a List.mem_cons_self, ih fun b hb => step b (List.mem_cons_of_mem _ hb)⟩

/-- A loop succeeds when each of its steps does where `I` holds, and keeps `I`. -/
theorem exists_forEach {I : σ → Prop} {l : List α} (step : ∀ a ∈ l, ∀ s, I s → ∃ t, (f a).Gives s () t ∧ I t)
    (start : I s) : ∃ t, (forEach f l).Gives s () t ∧ I t := by
  induction l generalizing s with
  | nil => exact ⟨s, gives_forEach_nil.mpr rfl, start⟩
  | cons a l ih =>
    obtain ⟨v, ha, hv⟩ := step a List.mem_cons_self s start
    obtain ⟨t, hl, ht⟩ := ih (fun b hb => step b (List.mem_cons_of_mem _ hb)) hv
    exact ⟨t, gives_forEach_cons.mpr ⟨v, ha, hl⟩, ht⟩

/-- A loop over the first `n` positions takes what holds before the first one to what holds after the last. -/
theorem Gives.forEach_range {f : Nat → Change ε σ Unit} {n : Nat} (I : Nat → σ → Prop)
    (step : ∀ pos < n, ∀ s t, I pos s → (f pos).Gives s () t → I (pos + 1) t) (start : I 0 s)
    (h : (Change.forEach f (List.range n)).Gives s u t) : I n t := by
  induction n generalizing t with
  | zero =>
    obtain rfl := gives_forEach_nil.mp h
    exact start
  | succ n ih =>
    rw [List.range_succ] at h
    obtain ⟨v, hv, ht⟩ := gives_forEach_append.mp h
    have hn : (f n).Gives v () t := by simpa using ht
    exact step n (Nat.lt_succ_self n) v t (ih (fun pos hpos => step pos (Nat.lt_succ_of_lt hpos)) hv) hn

/-- A loop over the first `n` positions succeeds when each step does where the one before it ended. -/
theorem exists_forEach_range {f : Nat → Change ε σ Unit} {n : Nat} (I : Nat → σ → Prop)
    (step : ∀ pos < n, ∀ s, I pos s → ∃ t, (f pos).Gives s () t ∧ I (pos + 1) t) (start : I 0 s) :
    ∃ t, (Change.forEach f (List.range n)).Gives s () t ∧ I n t := by
  induction n with
  | zero => exact ⟨s, gives_forEach_nil.mpr rfl, start⟩
  | succ n ih =>
    obtain ⟨v, hv, hIv⟩ := ih fun pos hpos => step pos (Nat.lt_succ_of_lt hpos)
    obtain ⟨t, ht, hIt⟩ := step n (Nat.lt_succ_self n) v hIv
    rw [List.range_succ]
    exact ⟨t, gives_forEach_append.mpr ⟨v, hv, gives_forEach_cons.mpr ⟨t, ht, gives_forEach_nil.mpr rfl⟩⟩, hIt⟩

theorem gives_gather_cons {g : α → Change ε σ (Option β)} {a : α} {l : List α} {bs : List β} :
    (gather g (a :: l)).Gives s bs t ↔
      ∃ b v cs, (g a).Gives s b v ∧ (gather g l).Gives v cs t ∧ bs = b.toList ++ cs := by
  simp only [gather, bind_eq, pure_eq, gives_bind, gives_pure]
  constructor
  · rintro ⟨b, v, ha, cs, w, hl, rfl, rfl⟩
    exact ⟨b, v, cs, ha, hl, rfl⟩
  · rintro ⟨b, v, cs, ha, hl, rfl⟩
    exact ⟨b, v, ha, cs, t, hl, rfl, rfl⟩

/-- What each step keeps is kept by all of them, and what each step tells holds of its item. -/
theorem Gives.gather {g : α → Change ε σ (Option β)} {I : σ → Prop} {Q : α → Prop} {l : List α} {bs : List β}
    (step : ∀ a ∈ l, ∀ s b t, I s → (g a).Gives s b t → I t ∧ Q a) (start : I s) (h : (gather g l).Gives s bs t) :
    I t ∧ ∀ a ∈ l, Q a := by
  induction l generalizing s bs with
  | nil =>
    obtain ⟨-, rfl⟩ := gives_pure.mp h
    exact ⟨start, fun a ha => absurd ha List.not_mem_nil⟩
  | cons a l ih =>
    obtain ⟨b, v, cs, ha, hl, -⟩ := gives_gather_cons.mp h
    obtain ⟨hv, hQ⟩ := step a List.mem_cons_self _ _ _ start ha
    obtain ⟨ht, hall⟩ := ih (fun a ha => step a (List.mem_cons_of_mem _ ha)) hv hl
    exact ⟨ht, List.forall_mem_cons.mpr ⟨hQ, hall⟩⟩

/-- What holds of each value that a step gives, where the steps keep `I`, holds of all of them. -/
theorem Gives.gather_all {g : α → Change ε σ (Option β)} {I : σ → Prop} {Q : β → Prop} {l : List α} {bs : List β}
    (step : ∀ a ∈ l, ∀ s b t, I s → (g a).Gives s b t → I t ∧ ∀ c ∈ b, Q c) (start : I s)
    (h : (Change.gather g l).Gives s bs t) : ∀ b ∈ bs, Q b := by
  induction l generalizing s bs with
  | nil =>
    obtain ⟨rfl, -⟩ := gives_pure.mp h
    exact fun b hb => absurd hb List.not_mem_nil
  | cons a l ih =>
    obtain ⟨x, v, cs, ha, hl, rfl⟩ := gives_gather_cons.mp h
    obtain ⟨hv, hQ⟩ := step a List.mem_cons_self _ _ _ start ha
    intro b hb
    rcases List.mem_append.mp hb with hb | hb
    · exact hQ b (Option.mem_toList.mp hb)
    · exact ih (fun c hc => step c (List.mem_cons_of_mem _ hc)) hv hl b hb

theorem each_cons_ok {c : Change ε σ Unit} {s : σ} (ss : List σ) (h : (c s).result = .ok ()) :
    each c (s :: ss) =
      ⟨(each c ss).result, (c s).state :: (each c ss).state, (c s).log ++ (each c ss).log⟩ := by
  simp [each, h]

theorem each_cons_error {c : Change ε σ Unit} {s : σ} (ss : List σ) {e : ε} (h : (c s).result = .error e) :
    each c (s :: ss) = ⟨.error e, (c s).state :: ss, (c s).log⟩ := by
  simp [each, h]

theorem gives_each {c : Change ε σ Unit} {ss ts : List σ} :
    (each c).Gives ss u ts ↔ List.Forall₂ (fun s t => c.Gives s () t) ss ts := by
  induction ss generalizing ts with
  | nil =>
    rw [List.forall₂_nil_left_iff]
    exact ⟨fun h => h.2.symm, fun h => ⟨rfl, h.symm⟩⟩
  | cons s ss ih =>
    rw [List.forall₂_cons_left_iff]
    cases hr : (c s).result with
    | ok v =>
      rw [Gives, each_cons_ok ss hr]
      constructor
      · rintro ⟨hr', rfl⟩
        exact ⟨(c s).state, (each c ss).state, ⟨hr, rfl⟩, ih.mp ⟨hr', rfl⟩, rfl⟩
      · rintro ⟨t, ts, ⟨-, rfl⟩, hts, rfl⟩
        obtain ⟨hr', rfl⟩ := ih.mpr hts
        exact ⟨hr', rfl⟩
    | error e =>
      rw [Gives, each_cons_error ss hr]
      constructor
      · rintro ⟨h, -⟩
        cases h
      · rintro ⟨t, ts, ⟨h, -⟩, -⟩
        rw [hr] at h
        cases h

end Lists

end Schemata.Change
