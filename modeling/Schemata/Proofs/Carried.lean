import Schemata.Proofs.Change

/-!
# A change on two states

A state may hold more than a change looks at. Started in the image of a state under a map, such a
change ends as it does from the state itself, but for the map (`Carried`). What a change is put
together from has this property part by part.
-/

namespace Schemata

/-- The outcome with another state and another value. -/
def Outcome.map {ε σ τ α β : Type} (f : σ → τ) (g : α → β) (o : Outcome ε σ α) : Outcome ε τ β :=
  ⟨o.result.map g, f o.state, o.log⟩

namespace Change

variable {ε σ τ α β γ δ : Type} {f : σ → τ} {g : α → β} {s : σ}

/-- From the image of `s` under `f` change `d` ends as `c` does from `s`, with `f` of the state and `g` of the
    value. -/
def Carried (f : σ → τ) (g : α → β) (c : Change ε σ α) (d : Change ε τ β) (s : σ) : Prop :=
  d (f s) = (c s).map f g

/-! ### Single changes -/

theorem carried_pure (a : α) : (pure a : Change ε σ α).Carried f g (pure (g a)) s := rfl

theorem carried_fail (e : ε) : (fail e : Change ε σ α).Carried f g (fail e) s := rfl

theorem carried_report (e : Event) : (report e : Change ε σ Unit).Carried f id (report e) s := rfl

theorem carried_get : (get : Change ε σ σ).Carried f f get s := rfl

theorem carried_modify {m : σ → σ} {n : τ → τ} (h : n (f s) = f (m s)) :
    (modify m : Change ε σ Unit).Carried f id (modify n) s := by
  show Outcome.mk _ _ _ = _
  rw [h]
  rfl

theorem carried_ofExcept (x : Except ε α) : (ofExcept x : Change ε σ α).Carried f id (ofExcept x) s := by
  cases x with
  | ok a => rfl
  | error e => rfl

theorem carried_self (c : Change ε σ α) (s : σ) : c.Carried id id c s := by
  unfold Carried Outcome.map
  rw [Except.map_id]
  rfl

/-! ### Changes of changes -/

theorem Carried.bind {c : Change ε σ α} {d : Change ε τ β} {k : α → Change ε σ γ} {m : β → Change ε τ δ} {g' : γ → δ}
    (hc : c.Carried f g d s) (hk : ∀ a t, c.Gives s a t → (k a).Carried f g' (m (g a)) t) :
    (c >>= k).Carried f g' (d >>= m) s := by
  have hleft : (c >>= k) s = Change.bind c k s := rfl
  have hright : (d >>= m) (f s) = Change.bind d m (f s) := rfl
  unfold Carried at hc ⊢
  rw [hleft, hright, Change.bind, Change.bind, hc, Outcome.map]
  cases hr : (c s).result with
  | ok a =>
    have hrest : m (g a) (f (c s).state) = (k a (c s).state).map f g' := hk a _ ⟨hr, rfl⟩
    show Outcome.mk _ _ _ = _
    rw [hrest]
    rfl
  | error e => rfl

/-- What comes after reading the state reads the image. -/
theorem Carried.of_get {k : σ → Change ε σ α} {m : τ → Change ε τ β} (h : (k s).Carried f g (m (f s)) s) :
    (Change.get >>= k).Carried f g (Change.get >>= m) s :=
  carried_get.bind fun a t hgives => by
    obtain ⟨rfl, rfl⟩ := gives_get.mp hgives
    exact h

theorem Carried.forEach {k : α → Change ε σ Unit} {m : α → Change ε τ Unit} {l : List α}
    (h : ∀ a ∈ l, ∀ s, (k a).Carried f id (m a) s) (s : σ) :
    (Change.forEach k l).Carried f id (Change.forEach m l) s := by
  induction l generalizing s with
  | nil => rfl
  | cons a l ih =>
    exact (h a List.mem_cons_self s).bind fun _ t _ => ih (fun b hb => h b (List.mem_cons_of_mem _ hb)) t

theorem Carried.gather {k : α → Change ε σ (Option γ)} {m : α → Change ε τ (Option γ)} {l : List α}
    (h : ∀ a ∈ l, ∀ s, (k a).Carried f id (m a) s) (s : σ) :
    (Change.gather k l).Carried f id (Change.gather m l) s := by
  induction l generalizing s with
  | nil => rfl
  | cons a l ih =>
    have hl := ih fun b hb => h b (List.mem_cons_of_mem _ hb)
    exact (h a List.mem_cons_self s).bind fun _ t _ => (hl t).bind fun _ _ _ => carried_pure _

/-- A change with a state of its own, which is mapped as well. -/
theorem Carried.starting {σ' τ' : Type} {f' : σ' → τ'} {t : σ'} {c : Change ε σ' α} {d : Change ε τ' β}
    (h : c.Carried f' g d t) : (starting t c).Carried f (Prod.map g f') (starting (f' t) d) s := by
  unfold Carried at h ⊢
  unfold Change.starting
  rw [h]
  dsimp only [Outcome.map]
  cases (c t).result with
  | ok a => rfl
  | error e => rfl

/-- A change of a part of the state that the map leaves alone. -/
theorem carried_within {ρ : Type} {part : σ → ρ} {put : ρ → σ → σ} {part' : τ → ρ} {put' : ρ → τ → τ}
    {c : Change ε ρ α} (hpart : part' (f s) = part s) (hput : ∀ v, put' v (f s) = f (put v s)) :
    (within part put c).Carried f id (within part' put' c) s := by
  unfold Carried within
  dsimp only [Outcome.map]
  rw [hpart, hput]
  cases (c (part s)).result with
  | ok a => rfl
  | error e => rfl

end Change

end Schemata
