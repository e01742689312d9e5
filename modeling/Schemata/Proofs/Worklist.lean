import Mathlib.Data.List.Nodup
import Schemata.Proofs.Change
import Schemata.Worklist

/-!
# Working off a list

A key enters the list once and is worked on in its turn. Where a key that waits is never done and one
that was worked on stays done (`Worklist.Once`), no key is worked on twice, and those that waited at the
start come first.
-/

namespace Schemata.Worklist

variable {ε σ κ : Type}

/-! ### The list -/

section Lists
variable {w : Worklist κ} {k : κ} {ks rest : List κ}

/-- The keys of a worklist are distinct, and all of them have been seen. -/
structure Sound (w : Worklist κ) : Prop where
  nodup : w.waiting.Nodup
  seen : ∀ k ∈ w.waiting, k ∈ w.seen

theorem sound_empty : Sound ({} : Worklist κ) :=
  ⟨List.nodup_nil, fun _ hk => by cases hk⟩

/-- Taking the first key. -/
theorem Sound.pop (h : w.Sound) (hw : w.waiting = k :: rest) :
    Sound { w with waiting := rest } ∧ k ∉ rest := by
  obtain ⟨hnodup, hseen⟩ := h
  rw [hw] at hnodup hseen
  obtain ⟨hk, hrest⟩ := List.nodup_cons.mp hnodup
  exact ⟨⟨hrest, fun j hj => hseen j (List.mem_cons_of_mem _ hj)⟩, hk⟩

variable [DecidableEq κ]

theorem push_of_mem (h : k ∈ w.seen) : w.push k = w := by
  rw [push, if_pos h]

theorem push_of_not_mem (h : k ∉ w.seen) : w.push k = ⟨w.waiting ++ [k], k :: w.seen⟩ := by
  rw [push, if_neg h]

theorem Sound.push (h : w.Sound) (k : κ) : (w.push k).Sound := by
  by_cases hk : k ∈ w.seen
  · rwa [push_of_mem hk]
  · rw [push_of_not_mem hk]
    refine ⟨?_, fun j hj => ?_⟩
    · show (w.waiting ++ [k]).Nodup
      rw [← List.concat_eq_append]
      exact h.nodup.concat fun hmem => hk (h.seen k hmem)
    · rcases List.mem_append.mp hj with hj | hj
      · exact List.mem_cons_of_mem _ (h.seen j hj)
      · exact List.mem_singleton.mp hj ▸ List.mem_cons_self

theorem Sound.pushAll (h : w.Sound) (ks : List κ) : (w.pushAll ks).Sound := by
  induction ks generalizing w with
  | nil => exact h
  | cons k ks ih => exact ih (h.push k)

theorem prefix_push (w : Worklist κ) (k : κ) : w.waiting <+: (w.push k).waiting := by
  by_cases hk : k ∈ w.seen
  · simp [push_of_mem hk]
  · simp [push_of_not_mem hk]

theorem prefix_pushAll (w : Worklist κ) (ks : List κ) : w.waiting <+: (w.pushAll ks).waiting := by
  induction ks generalizing w with
  | nil => exact List.prefix_refl _
  | cons k ks ih => exact (prefix_push w k).trans (ih (w.push k))

theorem mem_pushAll (h : k ∈ (w.pushAll ks).waiting) : k ∈ w.waiting ∨ k ∈ ks := by
  induction ks generalizing w with
  | nil => exact Or.inl h
  | cons j ks ih =>
    rcases ih h with h | h
    · by_cases hj : j ∈ w.seen
      · rw [push_of_mem hj] at h
        exact Or.inl h
      · rw [push_of_not_mem hj] at h
        rcases List.mem_append.mp h with h | h
        · exact Or.inl h
        · exact Or.inr (List.mem_singleton.mp h ▸ List.mem_cons_self)
    · exact Or.inr (List.mem_cons_of_mem _ h)

/-- Keys that were not seen before wait. -/
theorem mem_waiting_pushAll (hk : k ∈ ks) (hfresh : k ∉ w.seen) : k ∈ (w.pushAll ks).waiting := by
  induction ks generalizing w with
  | nil => cases hk
  | cons j ks ih =>
    show k ∈ ((w.push j).pushAll ks).waiting
    by_cases hkj : k = j
    · subst hkj
      refine (prefix_pushAll (w.push k) ks).subset ?_
      simp [push_of_not_mem hfresh]
    · refine ih ((List.mem_cons.mp hk).resolve_left hkj) ?_
      by_cases hj : j ∈ w.seen
      · rwa [push_of_mem hj]
      · rw [push_of_not_mem hj]
        exact List.not_mem_cons_of_ne_of_not_mem hkj hfresh

/-- Keys that were all seen before change nothing. -/
theorem pushAll_of_seen (h : ∀ k ∈ ks, k ∈ w.seen) : w.pushAll ks = w := by
  induction ks with
  | nil => rfl
  | cons k ks ih =>
    show (w.push k).pushAll ks = w
    rw [push_of_mem (h k List.mem_cons_self)]
    exact ih fun j hj => h j (List.mem_cons_of_mem _ hj)

theorem length_pushAll (w : Worklist κ) (ks : List κ) :
    (w.pushAll ks).waiting.length ≤ w.waiting.length + ks.length := by
  induction ks generalizing w with
  | nil => exact Nat.le_refl _
  | cons k ks ih =>
    have hpush : (w.push k).waiting.length ≤ w.waiting.length + 1 := by
      by_cases hk : k ∈ w.seen
      · simp [push_of_mem hk]
      · simp [push_of_not_mem hk]
    have hrest : ((w.push k).pushAll ks).waiting.length ≤ (w.push k).waiting.length + ks.length := ih _
    rw [List.length_cons]
    show ((w.push k).pushAll ks).waiting.length ≤ _
    omega

/-- Distinct keys that were not seen before wait in their order. -/
theorem waiting_pushAll (hks : ks.Nodup) (hfresh : ∀ k ∈ ks, k ∉ w.seen) :
    (w.pushAll ks).waiting = w.waiting ++ ks := by
  induction ks generalizing w with
  | nil => simp [pushAll]
  | cons k ks ih =>
    obtain ⟨hk, hks⟩ := List.nodup_cons.mp hks
    have hpush := push_of_not_mem (hfresh k List.mem_cons_self)
    have hlater : ∀ j ∈ ks, j ∉ (w.push k).seen := fun j hj hseen => by
      rw [hpush] at hseen
      rcases List.mem_cons.mp hseen with rfl | hseen
      · exact hk hj
      · exact hfresh j (List.mem_cons_of_mem _ hj) hseen
    show ((w.push k).pushAll ks).waiting = _
    rw [ih hks hlater, hpush]
    simp

end Lists

/-! ### One key after another -/

section Drain
variable [DecidableEq κ] {pending : σ → List κ} {run : κ → Change ε σ Bool} {endless : σ → ε}
variable {w : Worklist κ} {k : κ} {rest ran : List κ} {s t : σ} {fuel : Nat}

theorem gives_drain_nil (hw : w.waiting = []) :
    (drain pending run endless fuel w).Gives s ran t ↔ ran = [] ∧ t = s := by
  cases fuel <;> simp [drain, hw]

theorem gives_drain_cons (hw : w.waiting = k :: rest) (h : (drain pending run endless fuel w).Gives s ran t) :
    ∃ n, fuel = n + 1 ∧ ∃ v,
      (run k).Gives s false v ∧ (drain pending run endless n { w with waiting := rest }).Gives v ran t ∨
      (run k).Gives s true v ∧ ∃ later, ran = k :: later ∧
        (drain pending run endless n (pushAll { w with waiting := rest } (pending v))).Gives v later t := by
  cases fuel with
  | zero =>
    simp only [drain, hw, Change.gives_bind] at h
    obtain ⟨_, _, -, h⟩ := h
    exact absurd h Change.not_gives_fail
  | succ n =>
    simp only [drain, hw, Change.gives_bind] at h
    obtain ⟨b, v, hrun, h⟩ := h
    refine ⟨n, rfl, v, ?_⟩
    cases b with
    | false => exact Or.inl ⟨hrun, h⟩
    | true =>
      rw [if_pos rfl] at h
      simp only [Change.gives_bind, Change.gives_get, Change.gives_pure] at h
      obtain ⟨_, _, ⟨rfl, rfl⟩, later, _, hlater, rfl, rfl⟩ := h
      exact Or.inr ⟨hrun, later, rfl, hlater⟩

/-- A key with work to do, and then the rest. -/
theorem gives_drain_step {later : List κ} {v : σ} {n : Nat} (hw : w.waiting = k :: rest) (hrun : (run k).Gives s true v)
    (h : (drain pending run endless n (pushAll { w with waiting := rest } (pending v))).Gives v later t) :
    (drain pending run endless (n + 1) w).Gives s (k :: later) t := by
  simp only [drain, hw, Change.gives_bind]
  refine ⟨true, v, hrun, ?_⟩
  rw [if_pos rfl]
  exact Change.gives_bind.mpr ⟨v, v, Change.gives_get.mpr ⟨rfl, rfl⟩,
    Change.gives_bind.mpr ⟨later, t, h, Change.gives_pure.mpr ⟨rfl, rfl⟩⟩⟩

/-- Induction along work that succeeds: the list is empty, its first key has nothing to do, or it has and
    what is pending after it is added. -/
theorem drain_induction {motive : Worklist κ → σ → List κ → Prop} (empty : ∀ {w}, w.waiting = [] → motive w t [])
    (skip : ∀ {w k rest s v ran}, w.waiting = k :: rest → (run k).Gives s false v →
      motive { w with waiting := rest } v ran → motive w s ran)
    (step : ∀ {w k rest s v later n}, w.waiting = k :: rest → (run k).Gives s true v →
      (drain pending run endless n (pushAll { w with waiting := rest } (pending v))).Gives v later t →
      motive (pushAll { w with waiting := rest } (pending v)) v later → motive w s (k :: later))
    (h : (drain pending run endless fuel w).Gives s ran t) : motive w s ran := by
  induction fuel generalizing w s ran with
  | zero =>
    cases hw : w.waiting with
    | nil =>
      obtain ⟨rfl, rfl⟩ := (gives_drain_nil hw).mp h
      exact empty hw
    | cons k rest =>
      obtain ⟨n, hn, -⟩ := gives_drain_cons hw h
      cases hn
  | succ n ih =>
    cases hw : w.waiting with
    | nil =>
      obtain ⟨rfl, rfl⟩ := (gives_drain_nil hw).mp h
      exact empty hw
    | cons k rest =>
      obtain ⟨_, hn, v, ⟨hrun, h⟩ | ⟨hrun, later, rfl, h⟩⟩ := gives_drain_cons hw h <;> cases hn
      · exact skip hw hrun (ih h)
      · exact step hw hrun h (ih h)

/-- What each run relates, the whole work does. -/
theorem drain_rel {R : σ → σ → Prop} (refl : ∀ s, R s s) (trans : ∀ {s t v}, R s t → R t v → R s v)
    (step : ∀ {k s b t}, (run k).Gives s b t → R s t) (h : (drain pending run endless fuel w).Gives s ran t) :
    R s t :=
  drain_induction (motive := fun _ s _ => R s t) (fun _ => refl t) (fun _ hrun ih => trans (step hrun) ih)
    (fun _ hrun _ ih => trans (step hrun) ih) h

theorem gives_work {slack : Nat} :
    (work slack pending run endless).Gives s ran t ↔
      (drain pending run endless (slack + (pending s).length) (pushAll {} (pending s))).Gives s ran t := by
  simp only [work, Change.gives_bind, Change.gives_get]
  constructor
  · rintro ⟨_, _, ⟨rfl, rfl⟩, h⟩
    exact h
  · intro h
    exact ⟨s, s, ⟨rfl, rfl⟩, h⟩

theorem work_rel {R : σ → σ → Prop} (refl : ∀ s, R s s) (trans : ∀ {s t v}, R s t → R t v → R s v)
    (step : ∀ {k s b t}, (run k).Gives s b t → R s t) {slack : Nat}
    (h : (work slack pending run endless).Gives s ran t) : R s t :=
  drain_rel refl trans step (gives_work.mp h)

/-- Without pending keys there is nothing to do. -/
theorem gives_work_of_pending {slack : Nat} (hs : pending s = []) :
    (work slack pending run endless).Gives s ran t ↔ ran = [] ∧ t = s := by
  rw [gives_work, hs]
  exact gives_drain_nil rfl

/-- Where every pending key has work to do, work that did nothing found nothing pending. -/
theorem pending_of_work_nil {slack : Nat} (hrun : ∀ k ∈ pending s, ∀ t, ¬(run k).Gives s false t)
    (h : (work slack pending run endless).Gives s [] t) : pending s = [] ∧ t = s := by
  cases hp : pending s with
  | nil => exact ⟨rfl, ((gives_work_of_pending hp).mp h).2⟩
  | cons k ks =>
    have hfirst : ∃ rest, (pushAll ({} : Worklist κ) (k :: ks)).waiting = k :: rest := by
      have hpush : (({} : Worklist κ).push k).waiting = [k] := by simp [push]
      obtain ⟨rest, hrest⟩ := prefix_pushAll (({} : Worklist κ).push k) ks
      rw [hpush] at hrest
      exact ⟨rest, hrest.symm⟩
    obtain ⟨rest, hw⟩ := hfirst
    rw [gives_work, hp] at h
    obtain ⟨n, -, v, ⟨hk, -⟩ | ⟨-, later, hran, -⟩⟩ := gives_drain_cons hw h
    · exact absurd hk (hrun k (hp ▸ List.mem_cons_self) v)
    · cases hran

end Drain

/-! ### Never twice -/

/-- Work that is never done twice. A pending key waits and is not done; it waits until its run, which
    makes it done, and it stays done. `Inv` holds from the start on; `Good` is told by the end. -/
structure Once (pending : σ → List κ) (run : κ → Change ε σ Bool) (Inv Good : σ → Prop) (Waits Done : σ → κ → Prop) :
    Prop where
  inv : ∀ {k s b t}, (run k).Gives s b t → Inv s → Inv t
  good : ∀ {k s b t}, (run k).Gives s b t → Good t → Good s
  pending : ∀ {s k}, Inv s → Good s → k ∈ pending s → Waits s k
  not_done : ∀ {s k}, Waits s k → ¬Done s k
  runs : ∀ {k s b t}, Waits s k → (run k).Gives s b t → b = true ∧ Done t k
  waits : ∀ {j k s b t}, (run j).Gives s b t → k ≠ j → Waits s k → Waits t k
  done : ∀ {j k s b t}, (run j).Gives s b t → Done s k → Done t k

namespace Once
variable [DecidableEq κ] {pending : σ → List κ} {run : κ → Change ε σ Bool} {endless : σ → ε}
variable {Inv Good : σ → Prop} {Waits Done : σ → κ → Prop}
variable {w : Worklist κ} {ran : List κ} {s t : σ} {fuel : Nat}

theorem drain_good (o : Once pending run Inv Good Waits Done)
    (h : (drain pending run endless fuel w).Gives s ran t) (ht : Good t) : Good s :=
  drain_rel (R := fun s t => Good t → Good s) (fun _ => id) (fun h h' => h ∘ h') o.good h ht

theorem drain_done (o : Once pending run Inv Good Waits Done) {k : κ}
    (h : (drain pending run endless fuel w).Gives s ran t) (hs : Done s k) : Done t k :=
  drain_rel (R := fun s t => Done s k → Done t k) (fun _ => id) (fun h h' => h' ∘ h) (fun h => o.done h) h hs

/-- The keys that wait are run first, no key is run twice, and exactly during the work it becomes done. -/
theorem drain (o : Once pending run Inv Good Waits Done) (hw : w.Sound) (hwaits : ∀ k ∈ w.waiting, Waits s k)
    (hs : Inv s) (h : (drain pending run endless fuel w).Gives s ran t) (ht : Good t) :
    w.waiting <+: ran ∧ ran.Nodup ∧ ∀ k ∈ ran, ¬Done s k ∧ Done t k := by
  revert hw hwaits hs
  refine drain_induction (motive := fun w s ran => w.Sound → (∀ k ∈ w.waiting, Waits s k) → Inv s →
    w.waiting <+: ran ∧ ran.Nodup ∧ ∀ k ∈ ran, ¬Done s k ∧ Done t k) ?_ ?_ ?_ h
  · intro w hq hw hwaits hs
    exact ⟨hq ▸ List.prefix_refl _, List.nodup_nil, fun k hk => by cases hk⟩
  · intro w k rest s v ran hq hrun ih hw hwaits hs
    have hk : Waits s k := hwaits k (hq ▸ List.mem_cons_self)
    exact absurd (o.runs hk hrun).1 (by simp)
  · intro w k rest s v later n hq hrun hrest ih hw hwaits hs
    have hk : Waits s k := hwaits k (hq ▸ List.mem_cons_self)
    obtain ⟨hpop, hfresh⟩ := hw.pop hq
    -- `Good` comes from the end of the work, so what is pending after this run waits.
    have hv : Good v := o.drain_good hrest ht
    have hvw : ∀ j ∈ (pushAll { w with waiting := rest } (pending v)).waiting, Waits v j := fun j hj => by
      rcases mem_pushAll hj with hj | hj
      · have hjk : j ≠ k := fun hjk => hfresh (hjk ▸ hj)
        exact o.waits hrun hjk (hwaits j (hq ▸ List.mem_cons_of_mem _ hj))
      · exact o.pending (o.inv hrun hs) hv hj
    obtain ⟨hpre, hnodup, hlater⟩ := ih (hpop.pushAll _) hvw (o.inv hrun hs)
    have hdone : Done v k := (o.runs hk hrun).2
    refine ⟨?_, ?_, fun j hj => ?_⟩
    · exact hq ▸ (List.prefix_cons_inj k).mpr ((prefix_pushAll _ _).trans hpre)
    · exact List.nodup_cons.mpr ⟨fun hmem => (hlater k hmem).1 hdone, hnodup⟩
    · rcases List.mem_cons.mp hj with rfl | hj
      · exact ⟨o.not_done hk, o.drain_done hrest hdone⟩
      · exact ⟨fun hdone' => (hlater j hj).1 (o.done hrun hdone'), (hlater j hj).2⟩

theorem work (o : Once pending run Inv Good Waits Done) {slack : Nat} (hs : Inv s)
    (h : (work slack pending run endless).Gives s ran t) (ht : Good t) :
    (pushAll {} (pending s)).waiting <+: ran ∧ ran.Nodup ∧ ∀ k ∈ ran, ¬Done s k ∧ Done t k := by
  rw [gives_work] at h
  refine o.drain (sound_empty.pushAll _) (fun k hk => ?_) hs h ht
  rcases mem_pushAll hk with hk | hk
  · cases hk
  · exact o.pending hs (o.drain_good h ht) hk

end Once

end Schemata.Worklist
