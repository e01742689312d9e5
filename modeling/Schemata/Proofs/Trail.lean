import Schemata.Proofs.Change
import Schemata.Worklist

/-!
# What a log tells

A change leaves a state and a log also where it fails. A relation between the state before, the log and
the state after that is closed under doing nothing and doing one thing after another (`Trail`) holds of a
change when it holds of its parts (`Follows`), however the change ends. The rows of given steps (`Steps`)
are such a relation, and what holds of each step holds of a row.
-/

namespace Schemata

/-- `R` relates a state, what is logged from there on and the state after it. -/
structure Trail {σ : Type} (R : σ → List Event → σ → Prop) : Prop where
  refl : ∀ s, R s [] s
  trans : ∀ {s t u l m}, R s l t → R t m u → R s (l ++ m) u

/-- To keep a condition is a trail. -/
theorem trail_keeps {σ : Type} (I : σ → Prop) : Trail fun s _ t => I s → I t where
  refl _ := id
  trans h h' := h' ∘ h

/-- To leave a part as it was is a trail. -/
theorem trail_same {σ α : Type} (part : σ → α) : Trail fun s _ t => part t = part s where
  refl _ := rfl
  trans h h' := h'.trans h

theorem Trail.and {σ : Type} {R Q : σ → List Event → σ → Prop} (hR : Trail R) (hQ : Trail Q) :
    Trail fun s es t => R s es t ∧ Q s es t where
  refl s := ⟨hR.refl s, hQ.refl s⟩
  trans h h' := ⟨hR.trans h.1 h'.1, hQ.trans h.2 h'.2⟩

namespace Change

variable {ε σ τ α β : Type} {R : σ → List Event → σ → Prop} {s : σ}

/-- However change `c` ends when it starts in `s`, its log and the state after it are related to `s`. -/
def Follows (R : σ → List Event → σ → Prop) (c : Change ε σ α) (s : σ) : Prop :=
  R s (c s).log (c s).state

/-! ### Single changes -/

theorem follows_pure (hR : Trail R) (a : α) : (pure a : Change ε σ α).Follows R s :=
  hR.refl s

theorem follows_fail (hR : Trail R) (e : ε) : (fail e : Change ε σ α).Follows R s :=
  hR.refl s

theorem follows_ofExcept (hR : Trail R) (x : Except ε α) : (ofExcept x : Change ε σ α).Follows R s := by
  cases x with
  | ok a => exact hR.refl s
  | error e => exact hR.refl s

theorem follows_attempt (hR : Trail R) {f : σ → Except ε σ} (h : ∀ t, f s = .ok t → R s [] t) :
    (attempt f).Follows R s := by
  unfold Follows attempt
  cases hf : f s with
  | ok t => exact h t hf
  | error e => exact hR.refl s

theorem follows_modify {f : σ → σ} (h : R s [] (f s)) : (modify f : Change ε σ Unit).Follows R s := h

theorem follows_report {e : Event} (h : R s [e] s) : (report e : Change ε σ Unit).Follows R s := h

/-! ### Changes of changes -/

theorem log_starting (t : τ) (c : Change ε τ α) (s : σ) : (starting t c s).log = (c t).log := by
  unfold starting
  cases hr : (c t).result with
  | ok a => simp only [hr]
  | error e => simp only [hr]

theorem log_bind_pure (c : Change ε σ α) (f : α → β) (s : σ) :
    ((c >>= fun a => pure (f a) : Change ε σ β) s).log = (c s).log := by
  have hbind : (c >>= fun a => pure (f a) : Change ε σ β) s = Change.bind c (fun a => pure (f a)) s := rfl
  rw [hbind, Change.bind]
  cases (c s).result with
  | ok a => exact List.append_nil _
  | error e => rfl

theorem Follows.bind (hR : Trail R) {c : Change ε σ α} {f : α → Change ε σ β} (hc : c.Follows R s)
    (hf : ∀ a t, c.Gives s a t → (f a).Follows R t) : (c >>= f).Follows R s := by
  have key : (c >>= f) s = Change.bind c f s := rfl
  unfold Follows
  rw [key, Change.bind]
  cases hr : (c s).result with
  | ok a => exact hR.trans hc (hf a _ ⟨hr, rfl⟩)
  | error e => exact hc

/-- What comes after reading the state starts in that state. -/
theorem Follows.of_get {f : σ → Change ε σ α} (h : (f s).Follows R s) : (Change.get >>= f).Follows R s := by
  have key : (Change.get >>= f) s = f s s := rfl
  unfold Follows
  rw [key]
  exact h

theorem Follows.forEach (hR : Trail R) {f : α → Change ε σ Unit} {l : List α} (h : ∀ a ∈ l, ∀ s, (f a).Follows R s) :
    (Change.forEach f l).Follows R s := by
  induction l generalizing s with
  | nil => exact hR.refl s
  | cons a l ih =>
    have hl : ∀ t, (Change.forEach f l).Follows R t := fun t => ih fun b hb => h b (List.mem_cons_of_mem _ hb)
    exact (h a List.mem_cons_self s).bind hR fun _ t _ => hl t

theorem Follows.gather (hR : Trail R) {f : α → Change ε σ (Option β)} {l : List α}
    (h : ∀ a ∈ l, ∀ s, (f a).Follows R s) : (Change.gather f l).Follows R s := by
  induction l generalizing s with
  | nil => exact hR.refl s
  | cons a l ih =>
    have hl : ∀ t, (Change.gather f l).Follows R t := fun t => ih fun b hb => h b (List.mem_cons_of_mem _ hb)
    exact (h a List.mem_cons_self s).bind hR fun _ t _ => (hl t).bind hR fun _ _ _ => follows_pure hR _

theorem Follows.starting {Q : τ → List Event → τ → Prop} {t : τ} {c : Change ε τ α} (h : c.Follows Q t)
    (hQ : ∀ es u, Q t es u → R s es s) : (starting t c).Follows R s := by
  unfold Follows Change.starting
  cases hr : (c t).result with
  | ok a =>
    simp only [hr]
    exact hQ _ _ h
  | error e =>
    simp only [hr]
    exact hQ _ _ h

theorem Follows.within {Q : τ → List Event → τ → Prop} {part : σ → τ} {put : τ → σ → σ} {c : Change ε τ α}
    (h : c.Follows Q (part s)) (hput : ∀ es t, Q (part s) es t → R s es (put t s)) : (within part put c).Follows R s :=
  hput _ _ h

theorem Follows.atPosition {Q : τ → List Event → τ → Prop} {R : List τ → List Event → List τ → Prop} (hR : Trail R)
    {pos : Nat} {c : Change ε τ Unit} {ss : List τ} (h : ∀ s, c.Follows Q s)
    (hset : ∀ s es t, ss[pos]? = some s → Q s es t → R ss es (ss.set pos t)) : (atPosition pos c).Follows R ss := by
  unfold Follows Change.atPosition
  cases hs : ss[pos]? with
  | none => exact hR.refl ss
  | some s => exact hset s _ _ hs (h s)

/-- A change of each item of a list that logs nothing. -/
theorem each_of_silent {Q : τ → τ → Prop} {c : Change ε τ Unit} (refl : ∀ s, Q s s)
    (h : ∀ s, (c s).log = [] ∧ Q s (c s).state) (ss : List τ) :
    (each c ss).log = [] ∧ List.Forall₂ Q ss (each c ss).state := by
  induction ss with
  | nil => exact ⟨rfl, .nil⟩
  | cons s ss ih =>
    cases hr : (c s).result with
    | ok u =>
      rw [each_cons_ok ss hr]
      exact ⟨by rw [(h s).1, ih.1]; rfl, .cons (h s).2 ih.2⟩
    | error e =>
      rw [each_cons_error ss hr]
      exact ⟨(h s).1, .cons (h s).2 (List.forall₂_same.mpr fun t _ => refl t)⟩

/-! ### Changes that differ where the log tells -/

section Agrees
variable {E : Event → Prop}

/-- Where `E` holds of all that `c` logs from `s` on, `d` does the same. -/
def Agrees (E : Event → Prop) (c d : Change ε σ α) (s : σ) : Prop :=
  (∀ e ∈ (c s).log, E e) → d s = c s

theorem agrees_refl (c : Change ε σ α) : c.Agrees E c s := fun _ => rfl

theorem Agrees.bind {c d : Change ε σ α} {f g : α → Change ε σ β} (hc : c.Agrees E d s)
    (hf : ∀ a t, c.Gives s a t → (f a).Agrees E (g a) t) : (c >>= f).Agrees E (d >>= g) s := by
  intro hE
  have hleft : (c >>= f) s = Change.bind c f s := rfl
  have hright : (d >>= g) s = Change.bind d g s := rfl
  rw [hleft, Change.bind] at hE ⊢
  rw [hright, Change.bind]
  cases hr : (c s).result with
  | ok a =>
    simp only [hr, List.mem_append] at hE
    have hd := hc fun e he => hE e (.inl he)
    simp only [hd, hr, hf a _ ⟨hr, rfl⟩ fun e he => hE e (.inr he)]
  | error e =>
    simp only [hr] at hE
    simp only [hc hE, hr]

theorem Agrees.of_get {f g : σ → Change ε σ α} (h : (f s).Agrees E (g s) s) :
    (Change.get >>= f).Agrees E (Change.get >>= g) s :=
  Agrees.bind (agrees_refl _) fun a t hgives => by
    obtain ⟨rfl, rfl⟩ := gives_get.mp hgives
    exact h

/-- What comes after an event may use that it was logged. -/
theorem Agrees.of_report {e : Event} {f g : Unit → Change ε σ α} (h : E e → (f ()).Agrees E (g ()) s) :
    (report e >>= f).Agrees E (report e >>= g) s := by
  intro hE
  have he : E e := hE e List.mem_cons_self
  have hrest : (report e >>= f).Agrees E (report e >>= g) s := Agrees.bind (agrees_refl _) fun _ t ht => by
    obtain rfl := gives_report.mp ht
    exact h he
  exact hrest hE

theorem Agrees.gather {f g : α → Change ε σ (Option β)} (h : ∀ a s, (f a).Agrees E (g a) s) (l : List α) (s : σ) :
    (Change.gather f l).Agrees E (Change.gather g l) s := by
  induction l generalizing s with
  | nil => exact agrees_refl _
  | cons a l ih => exact (h a s).bind fun b t _ => (ih t).bind fun _ _ _ => agrees_refl _

theorem Agrees.starting {t : τ} {c d : Change ε τ α} (h : c.Agrees E d t) :
    (starting t c).Agrees E (starting t d) s := by
  intro hE
  rw [log_starting] at hE
  unfold Change.starting
  rw [h hE]

end Agrees

end Change

/-! ### Rows of steps -/

section Rows
variable {σ : Type} {S : σ → List Event → σ → Prop} {s t : σ}

/-- A row of steps, each of which logs something. -/
inductive Steps (S : σ → List Event → σ → Prop) : σ → List Event → σ → Prop where
  | refl (s : σ) : Steps S s [] s
  | tail {s l t m u} (before : Steps S s l t) (last : S t m u) : Steps S s (l ++ m) u

namespace Steps

theorem single {es : List Event} (h : S s es t) : Steps S s es t :=
  .tail (.refl s) h

/-- What relates the states of each step and is a trail relates the first and the last state of a row. -/
theorem lift {R : σ → List Event → σ → Prop} {es : List Event} (hR : Trail R) (step : ∀ {s es t}, S s es t → R s es t)
    (h : Steps S s es t) : R s es t := by
  induction h with
  | refl => exact hR.refl _
  | tail _ last ih => exact hR.trans ih (step last)

theorem trail : Trail (Steps S) where
  refl := .refl
  trans {s t u l m} h h' := by
    induction h' with
    | refl => exact (List.append_nil l).symm ▸ h
    | tail _ last ih => exact List.append_assoc .. ▸ ih.tail last

section Changes
variable {ε : Type}

theorem report {e : Event} (h : S s [e] s) : (Change.report e : Change ε σ Unit).Follows (Steps S) s :=
  .single h

theorem modify {f : σ → σ} (h : S s [] (f s)) : (Change.modify f : Change ε σ Unit).Follows (Steps S) s :=
  .single h

theorem attempt {f : σ → Except ε σ} (h : ∀ t, f s = .ok t → S s [] t) :
    (Change.attempt f).Follows (Steps S) s :=
  Change.follows_attempt trail fun t ht => .single (h t ht)

end Changes

end Steps

end Rows

namespace Worklist

variable {ε σ κ : Type} [DecidableEq κ] {R : σ → List Event → σ → Prop} {pending : σ → List κ}
  {run : κ → Change ε σ Bool} {endless : σ → ε}

theorem follows_drain (hR : Trail R) (hrun : ∀ k s, (run k).Follows R s) (fuel : Nat) (w : Worklist κ) (s : σ) :
    (drain pending run endless fuel w).Follows R s := by
  induction fuel generalizing w s with
  | zero =>
    unfold drain
    split
    · exact hR.refl s
    · exact .of_get (Change.follows_fail hR _)
  | succ fuel ih =>
    unfold drain
    split
    · exact hR.refl s
    · rename_i k rest hw
      refine (hrun k s).bind hR fun worked t _ => ?_
      cases worked with
      | false => exact ih _ t
      | true => exact .of_get ((ih _ t).bind hR fun later u _ => Change.follows_pure hR _)

theorem follows_work (hR : Trail R) (hrun : ∀ k s, (run k).Follows R s) (slack : Nat) (s : σ) :
    (work slack pending run endless).Follows R s :=
  .of_get (follows_drain hR hrun _ _ s)

end Worklist

end Schemata
