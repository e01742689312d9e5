import Schemata.Finalize.Settle
import Schemata.Proofs.Names
import Schemata.Proofs.Worklist

/-!
# Running behaviors

What one run of a behavior does: its hook, or copies for the tables, and the mark (`gives_runBehavior`,
`gives_runTableBehavior`). A relation that the hooks obey and that the rest keeps holds of the databases
before and after all the runs (`Registry.Settles`), and at the end nothing is pending (`Database.Quiet`).
-/

namespace Schemata

/-! ### Attaching behaviors -/

/-- A behavior may join where its id is free and, if it is single, its name is free, too. -/
theorem Behavior.isTaken_eq_false {bs : List Behavior} {b : Behavior} :
    isTaken bs b = false ↔ (∀ c ∈ bs, c.id ≠ b.id) ∧ ¬(!b.multiple && bs.any (·.name == b.name)) = true := by
  simp only [isTaken, List.any_eq_false, Bool.or_eq_true, beq_iff_eq]
  grind

theorem Behavior.attach_eq_ok {owner : BehaviorOwner} {bs cs : List Behavior} {b : Behavior} :
    attach owner bs b = .ok cs ↔ isTaken bs b = false ∧ cs = bs ++ [b] := by
  rw [isTaken_eq_false]
  unfold attach
  split
  · rename_i c hc
    have hid : c.id = b.id := by simpa using List.find?_some hc
    have htaken : ¬∀ c ∈ bs, c.id ≠ b.id := fun hids => hids c (List.mem_of_find?_eq_some hc) hid
    split <;> simp only [htaken, false_and, reduceCtorEq]
  · rename_i hfree
    have hids : ∀ c ∈ bs, c.id ≠ b.id := fun c hc => by simpa using List.find?_eq_none.mp hfree c hc
    split
    · rename_i hsingle
      simp [hsingle]
    · rename_i hname
      exact ⟨fun h => ⟨⟨hids, hname⟩, (Except.ok.inj h).symm⟩, fun h => congrArg _ h.2.symm⟩

theorem Table.addBehavior_eq_ok {t u : Table} {b : Behavior} (h : t.addBehavior b = .ok u) :
    u = { t with behaviors := t.behaviors ++ [{ b with table := some t.name }] } ∧ ∀ c ∈ t.behaviors, c.id ≠ b.id := by
  unfold addBehavior at h
  cases ha : Behavior.attach (.table t.name) t.behaviors { b with table := some t.name } with
  | error e =>
    rw [ha] at h
    cases h
  | ok bs =>
    rw [ha] at h
    obtain ⟨hfree, rfl⟩ := Behavior.attach_eq_ok.mp ha
    cases h
    exact ⟨rfl, (Behavior.isTaken_eq_false.mp hfree).1⟩

namespace Database
variable {d e f : Database} {r : Registry} {limit : Nat} {ran : List HookRun} {w : Unit}

/-- `u` is `t`, perhaps with a copy of `b` that has not run. -/
def TakesOn (b : Behavior) (t u : Table) : Prop :=
  u = t ∨ u = { t with behaviors := t.behaviors ++ [b.forTable t.name] } ∧ ∀ c ∈ t.behaviors, c.id ≠ b.id

theorem gives_spread {b : Behavior} (h : (spread b).Gives d w e) :
    ∃ us, e = { d with tables := us } ∧ List.Forall₂ (TakesOn b) d.tables us := by
  obtain ⟨us, hus, rfl⟩ := Change.gives_within.mp h
  refine ⟨us, rfl, (Change.gives_each.mp hus).imp fun t u htu => ?_⟩
  have hok := Change.gives_attempt.mp htu
  split at hok
  · cases hok
    exact Or.inl rfl
  · obtain ⟨rfl, hfree⟩ := Table.addBehavior_eq_ok hok
    exact Or.inr ⟨rfl, hfree⟩

/-! ### One run -/

/-- The database with a behavior marked as one that has run. -/
def mark : HookRun → Database → Database
  | .database id, d => d.modifyBehavior id ({ · with executed := true })
  | .table name id, d => d.modifyTable name (·.modifyBehavior id ({ · with executed := true }))

theorem gives_runBehavior {id : String} {b : Bool} (h : (runBehavior r id).Gives d b e) :
    b = false ∧ d.behavior? id = none ∧ e = d ∨
      b = true ∧ ∃ x m, d.behavior? id = some x ∧
        ((∃ hook, r.databaseHook? x = some hook ∧ (hook x).Gives d () m) ∨ (spread x).Gives d () m ∨ m = d) ∧
          e = m.mark (.database id) := by
  simp only [runBehavior, Change.gives_bind, Change.gives_get] at h
  obtain ⟨_, _, ⟨rfl, rfl⟩, h⟩ := h
  split at h
  · rename_i hnone
    obtain ⟨rfl, rfl⟩ := Change.gives_pure.mp h
    exact Or.inl ⟨rfl, hnone, rfl⟩
  · rename_i x hx
    split at h
    · rename_i hook hhook
      simp only [Change.gives_bind, Change.gives_report, Change.gives_modify, Change.gives_pure] at h
      obtain ⟨_, _, rfl, _, m, hm, _, _, rfl, rfl, rfl⟩ := h
      exact Or.inr ⟨rfl, x, m, hx, Or.inl ⟨hook, hhook, hm⟩, rfl⟩
    · split at h
      · simp only [Change.gives_bind, Change.gives_modify, Change.gives_pure] at h
        obtain ⟨_, m, hm, _, _, rfl, rfl, rfl⟩ := h
        exact Or.inr ⟨rfl, x, m, hx, Or.inr (Or.inl hm), rfl⟩
      · simp only [Change.gives_bind, Change.gives_modify, Change.gives_pure] at h
        obtain ⟨_, _, rfl, rfl, rfl⟩ := h
        exact Or.inr ⟨rfl, x, _, hx, Or.inr (Or.inr rfl), rfl⟩

theorem gives_runTableBehavior {key : String × String} {b : Bool} (h : (runTableBehavior r key).Gives d b e) :
    b = false ∧ (d.table? key.1).bind (·.behavior? key.2) = none ∧ e = d ∨
      b = true ∧ ∃ x m, (d.table? key.1).bind (·.behavior? key.2) = some x ∧
        ((∃ hook, r.tableHook? x = some hook ∧ (hook x key.1).Gives d () m) ∨ r.tableHook? x = none ∧ m = d) ∧
          e = m.mark (.table key.1 key.2) := by
  simp only [runTableBehavior, Change.gives_bind, Change.gives_get] at h
  obtain ⟨_, _, ⟨rfl, rfl⟩, h⟩ := h
  split at h
  · rename_i hnone
    obtain ⟨rfl, rfl⟩ := Change.gives_pure.mp h
    exact Or.inl ⟨rfl, hnone, rfl⟩
  · rename_i x hx
    split at h
    · rename_i hook hhook
      simp only [Change.gives_bind, Change.gives_report, Change.gives_modify, Change.gives_pure] at h
      obtain ⟨_, _, rfl, _, m, hm, _, _, rfl, rfl, rfl⟩ := h
      exact Or.inr ⟨rfl, x, m, hx, Or.inl ⟨hook, hhook, hm⟩, rfl⟩
    · rename_i hnone
      simp only [Change.gives_bind, Change.gives_modify, Change.gives_pure] at h
      obtain ⟨_, _, rfl, rfl, rfl⟩ := h
      exact Or.inr ⟨rfl, x, _, hx, Or.inr ⟨hnone, rfl⟩, rfl⟩

/-! ### Rounds -/

theorem gives_settleRound : (settleRound limit r).Gives d ran e ↔ ∃ ids m keys,
    (runBehaviors limit r).Gives d ids m ∧ (runTableBehaviors limit r).Gives m keys e ∧
      ran = ids.map .database ++ keys.map fun k => .table k.1 k.2 := by
  simp only [settleRound, Change.gives_bind, Change.gives_pure]
  constructor
  · rintro ⟨ids, m, hids, keys, _, hkeys, rfl, rfl⟩
    exact ⟨ids, m, keys, hids, hkeys, rfl⟩
  · rintro ⟨ids, m, keys, hids, hkeys, rfl⟩
    exact ⟨ids, m, hids, keys, _, hkeys, rfl, rfl⟩

theorem gives_settleRounds {rounds : Nat} : (settleRounds limit r rounds).Gives d ran e ↔
    ∃ n, rounds = n + 1 ∧ ((settleRound limit r).Gives d [] e ∧ ran = [] ∨
      ∃ first m later, first ≠ [] ∧ (settleRound limit r).Gives d first m ∧
        (settleRounds limit r n).Gives m later e ∧ ran = first ++ later) := by
  cases rounds with
  | zero => simp [settleRounds]
  | succ n =>
    simp only [settleRounds, Change.gives_bind, Nat.succ.injEq, exists_eq_left']
    constructor
    · rintro ⟨first, m, hfirst, h⟩
      split at h
      · rename_i hnone
        obtain rfl := List.isEmpty_iff.mp hnone
        obtain ⟨rfl, rfl⟩ := Change.gives_pure.mp h
        exact Or.inl ⟨hfirst, rfl⟩
      · rename_i hsome
        simp only [Change.gives_bind, Change.gives_pure] at h
        obtain ⟨later, _, hlater, rfl, rfl⟩ := h
        exact Or.inr ⟨first, m, later, fun hnil => hsome (List.isEmpty_iff.mpr hnil), hfirst, hlater, rfl⟩
    · rintro (⟨hfirst, rfl⟩ | ⟨first, m, later, hne, hfirst, hlater, rfl⟩)
      · exact ⟨[], e, hfirst, Change.gives_pure.mpr ⟨rfl, rfl⟩⟩
      · refine ⟨first, m, hfirst, ?_⟩
        rw [if_neg fun hnil => hne (List.isEmpty_iff.mp hnil)]
        exact Change.gives_bind.mpr ⟨later, e, hlater, Change.gives_pure.mpr ⟨rfl, rfl⟩⟩

/-- Induction along rounds that succeed: the last one ran nothing, or others come after the first. -/
theorem settleRounds_induction {rounds : Nat} {motive : Database → List HookRun → Prop}
    (last : ∀ {d}, (settleRound limit r).Gives d [] e → motive d [])
    (round : ∀ {d first m later n}, (settleRound limit r).Gives d first m →
      (settleRounds limit r n).Gives m later e → motive m later → motive d (first ++ later))
    (h : (settleRounds limit r rounds).Gives d ran e) : motive d ran := by
  induction rounds generalizing d ran with
  | zero =>
    obtain ⟨n, hn, -⟩ := gives_settleRounds.mp h
    cases hn
  | succ rounds ih =>
    obtain ⟨_, hn, ⟨hlast, rfl⟩ | ⟨first, m, later, -, hfirst, hlater, rfl⟩⟩ := gives_settleRounds.mp h <;> cases hn
    · exact last hlast
    · exact round hfirst hlater (ih hlater)

end Database

/-! ### What all the runs relate -/

/-- Besides the hooks, what is done around them keeps the relation. -/
structure Registry.Settles (r : Registry) (R : Database → Database → Prop) : Prop extends r.HooksObey R where
  refl : ∀ d, R d d
  trans : ∀ {d e f}, R d e → R e f → R d f
  spread : ∀ {b d e}, (Database.spread b).Gives d () e → R d e
  mark : ∀ k d, R d (d.mark k)

namespace Registry.Settles
variable {r : Registry} {R : Database → Database → Prop} {d e : Database} {limit rounds : Nat} {ran : List HookRun}

theorem runBehavior (h : r.Settles R) {id : String} {b : Bool} (hd : (Database.runBehavior r id).Gives d b e) :
    R d e := by
  obtain ⟨-, -, rfl⟩ | ⟨-, x, m, -, hm, rfl⟩ := Database.gives_runBehavior hd
  · exact h.refl _
  · refine h.trans ?_ (h.mark _ _)
    rcases hm with ⟨hook, hhook, hm⟩ | hm | rfl
    · exact h.database hhook hm
    · exact h.spread hm
    · exact h.refl _

theorem runTableBehavior (h : r.Settles R) {key : String × String} {b : Bool}
    (hd : (Database.runTableBehavior r key).Gives d b e) : R d e := by
  obtain ⟨-, -, rfl⟩ | ⟨-, x, m, -, hm, rfl⟩ := Database.gives_runTableBehavior hd
  · exact h.refl _
  · refine h.trans ?_ (h.mark _ _)
    rcases hm with ⟨hook, hhook, hm⟩ | ⟨-, rfl⟩
    · exact h.table hhook hm
    · exact h.refl _

theorem runBehaviors (h : r.Settles R) {ids : List String} (hd : (Database.runBehaviors limit r).Gives d ids e) :
    R d e :=
  Worklist.work_rel h.refl h.trans h.runBehavior hd

theorem runTableBehaviors (h : r.Settles R) {keys : List (String × String)}
    (hd : (Database.runTableBehaviors limit r).Gives d keys e) : R d e :=
  Worklist.work_rel h.refl h.trans h.runTableBehavior hd

theorem settleRound (h : r.Settles R) (hd : (Database.settleRound limit r).Gives d ran e) : R d e := by
  obtain ⟨ids, m, keys, hids, hkeys, -⟩ := Database.gives_settleRound.mp hd
  exact h.trans (h.runBehaviors hids) (h.runTableBehaviors hkeys)

theorem settleRounds (h : r.Settles R) (hd : (Database.settleRounds limit r rounds).Gives d ran e) : R d e :=
  Database.settleRounds_induction (motive := fun d _ => R d e) (fun hlast => h.settleRound hlast)
    (fun hfirst _ ih => h.trans (h.settleRound hfirst) ih) hd

theorem settle (h : r.Settles R) (hd : (Database.settle limit r).Gives d ran e) : R d e :=
  h.settleRounds hd

end Registry.Settles

/-! ### Nothing is left -/

namespace Database
variable {d e : Database} {r : Registry} {limit rounds : Nat} {ran : List HookRun}

/-- No behavior of the database or of a table is pending. -/
structure Quiet (d : Database) : Prop where
  own : d.pendingBehaviors = []
  inTables : d.pendingTableBehaviors = []

theorem mem_pendingBehaviors {id : String} :
    id ∈ d.pendingBehaviors ↔ ∃ b ∈ d.behaviors, b.executed = false ∧ b.id = id := by
  simp [pendingBehaviors, and_assoc]

theorem mem_pendingTableBehaviors {key : String × String} : key ∈ d.pendingTableBehaviors ↔
    ∃ t ∈ d.tables, t.name = key.1 ∧ ∃ b ∈ t.behaviors, b.executed = false ∧ b.id = key.2 := by
  obtain ⟨name, id⟩ := key
  simp only [pendingTableBehaviors, List.mem_flatMap, List.mem_map, List.mem_filter, Bool.not_eq_true',
    Prod.mk.injEq]
  constructor
  · rintro ⟨t, ht, b, ⟨hb, hexec⟩, hname, hid⟩
    exact ⟨t, ht, hname, b, hb, hexec, hid⟩
  · rintro ⟨t, ht, hname, b, hb, hexec, hid⟩
    exact ⟨t, ht, b, ⟨hb, hexec⟩, hname, hid⟩

theorem not_gives_runBehavior_false {id : String} (h : id ∈ d.pendingBehaviors) :
    ¬(runBehavior r id).Gives d false e := by
  intro hrun
  obtain ⟨-, hnone, -⟩ | ⟨hfalse, -⟩ := gives_runBehavior hrun
  · obtain ⟨b, hb, -, rfl⟩ := mem_pendingBehaviors.mp h
    simpa using List.find?_eq_none.mp hnone b hb
  · cases hfalse

theorem not_gives_runTableBehavior_false (hd : d.tableNames.Nodup) {key : String × String}
    (h : key ∈ d.pendingTableBehaviors) : ¬(runTableBehavior r key).Gives d false e := by
  intro hrun
  obtain ⟨-, hnone, -⟩ | ⟨hfalse, -⟩ := gives_runTableBehavior hrun
  · obtain ⟨t, ht, hname, b, hb, -, hid⟩ := mem_pendingTableBehaviors.mp h
    rw [← hname, table?_name hd ht, Option.bind_some, ← hid] at hnone
    simpa using List.find?_eq_none.mp hnone b hb
  · cases hfalse

/-- After a round that ran nothing nothing is pending. -/
theorem quiet_of_settleRound (hd : d.tableNames.Nodup) (h : (settleRound limit r).Gives d [] e) : e.Quiet := by
  obtain ⟨ids, m, keys, hids, hkeys, hnil⟩ := gives_settleRound.mp h
  obtain ⟨hnil₁, hnil₂⟩ := List.append_eq_nil_iff.mp hnil.symm
  obtain rfl := List.map_eq_nil_iff.mp hnil₁
  obtain rfl := List.map_eq_nil_iff.mp hnil₂
  -- Neither kind of behavior ran, so it is one database throughout.
  obtain ⟨hown, rfl⟩ := Worklist.pending_of_work_nil (fun _ hk _ => not_gives_runBehavior_false hk) hids
  obtain ⟨hinner, rfl⟩ := Worklist.pending_of_work_nil (fun _ hk _ => not_gives_runTableBehavior_false hd hk) hkeys
  exact ⟨hown, hinner⟩

/-- After all rounds nothing is pending, when the hooks keep the names of the tables distinct. -/
theorem quiet_of_settle {R : Database → Database → Prop} {P : Database → Prop} (hr : r.Settles R)
    (hP : ∀ {d e}, R d e → P d → P e) (hnames : ∀ {d}, P d → d.tableNames.Nodup) (hd : P d)
    (h : (settleRounds limit r rounds).Gives d ran e) : e.Quiet := by
  revert hd
  refine settleRounds_induction (motive := fun d _ => P d → e.Quiet) ?_ ?_ h
  · intro d hlast hd
    exact quiet_of_settleRound (hnames hd) hlast
  · intro d first m later n hfirst _ ih hd
    exact ih (hP (hr.settleRound hfirst) hd)

theorem limit_pos (h : (settle limit r).Gives d ran e) : 0 < limit := by
  obtain ⟨n, rfl, -⟩ := gives_settleRounds.mp h
  exact Nat.succ_pos n

/-- Where nothing is pending, nothing runs. -/
theorem Quiet.settleRound (h : d.Quiet) : (settleRound limit r).Gives d [] d :=
  gives_settleRound.mpr ⟨[], d, [], (Worklist.gives_work_of_pending h.own).mpr ⟨rfl, rfl⟩,
    (Worklist.gives_work_of_pending h.inTables).mpr ⟨rfl, rfl⟩, rfl⟩

theorem Quiet.settleRounds (h : d.Quiet) (hr : 0 < rounds) : (settleRounds limit r rounds).Gives d [] d := by
  obtain ⟨n, rfl⟩ := Nat.exists_eq_succ_of_ne_zero (Nat.ne_of_gt hr)
  exact gives_settleRounds.mpr ⟨n, rfl, Or.inl ⟨h.settleRound, rfl⟩⟩

theorem Quiet.settle (h : d.Quiet) (hl : 0 < limit) : (settle limit r).Gives d [] d :=
  h.settleRounds hl

end Database

end Schemata
