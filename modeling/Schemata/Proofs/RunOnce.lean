import Schemata.Proofs.Finalize
import Schemata.Proofs.Marks

/-!
# Behaviors run once

Over any sequence of successful calls of finalization no behavior runs twice, and after each of them
every behavior has run, wherever and whenever it was attached (`behaviors_run_once`). A behavior that is
shadowed could run twice, but it would be pending at the end, and a call that succeeds leaves nothing
pending.
-/

namespace Schemata.Database
variable {d e f m : Database} {r : Registry} {limit rounds : Nat} {p : Platform} {ran more : List HookRun}

/-! ### Nothing is shadowed -/

def Unshadowed (d : Database) : Prop :=
  ∀ k, ¬d.Holds Behavior.Shadowed k

theorem Advances.unshadowed (h : d.Advances e) (he : e.Unshadowed) : d.Unshadowed :=
  fun k hk => he k (h.shadowed k hk)

theorem Quiet.unshadowed (h : d.Quiet) : d.Unshadowed := by
  intro k hk
  cases k with
  | database id =>
    have hmem := mem_pendingBehaviors.mpr (holds_database.mp hk).exists_pending
    rw [h.own] at hmem
    cases hmem
  | table name id =>
    obtain ⟨t, ht, hs⟩ := holds_table.mp hk
    have hname : t.name = name := by simpa using List.find?_some ht
    have hmem : (name, id) ∈ d.pendingTableBehaviors :=
      mem_pendingTableBehaviors.mpr ⟨t, List.mem_of_find?_eq_some ht, hname, hs.exists_pending⟩
    rw [h.inTables] at hmem
    cases hmem

theorem waiting_of_mem_pendingBehaviors (hd : d.Unshadowed) {id : String} (h : id ∈ d.pendingBehaviors) :
    d.Holds Behavior.Waiting (.database id) := by
  obtain ⟨b, hb, he, hid⟩ := mem_pendingBehaviors.mp h
  exact holds_database.mpr (Behavior.waiting_of_pending (fun hs => hd _ (holds_database.mpr hs)) hb he hid)

theorem waiting_of_mem_pendingTableBehaviors (hn : d.tableNames.Nodup) (hd : d.Unshadowed) {key : String × String}
    (h : key ∈ d.pendingTableBehaviors) : d.Holds Behavior.Waiting (.table key.1 key.2) := by
  obtain ⟨t, ht, hname, b, hb, he, hid⟩ := mem_pendingTableBehaviors.mp h
  have hfind : d.table? key.1 = some t := hname ▸ table?_name hn ht
  refine holds_table.mpr ⟨t, hfind, Behavior.waiting_of_pending (fun hs => ?_) hb he hid⟩
  exact hd _ (holds_table.mpr ⟨t, hfind, hs⟩)

theorem nodup_pendingBehaviors (hd : d.Unshadowed) : d.pendingBehaviors.Nodup :=
  Behavior.nodup_pending fun _ hs => hd _ (holds_database.mpr hs)

/-! ### Runs that are made once -/

/-- Between `d` and `e` the behaviors of `ran` have run, none of which had run before, each once. -/
structure RunsOnce (d : Database) (ran : List HookRun) (e : Database) : Prop where
  advances : d.Advances e
  nodup : ran.Nodup
  fresh : ∀ k ∈ ran, ¬d.Holds Behavior.Executed k
  done : ∀ k ∈ ran, e.Holds Behavior.Executed k

theorem Advances.runsOnce (h : d.Advances e) : d.RunsOnce [] e where
  advances := h
  nodup := List.nodup_nil
  fresh := by simp
  done := by simp

theorem RunsOnce.append (h : d.RunsOnce ran m) (h' : m.RunsOnce more e) : d.RunsOnce (ran ++ more) e where
  advances := h.advances.trans h'.advances
  nodup := List.nodup_append.mpr ⟨h.nodup, h'.nodup, fun j hj k hk hjk => h'.fresh k hk (hjk ▸ h.done j hj)⟩
  fresh := fun k hk hexec => by
    rcases List.mem_append.mp hk with hk | hk
    · exact h.fresh k hk hexec
    · exact h'.fresh k hk (h.advances.executed k hexec)
  done := fun k hk => by
    rcases List.mem_append.mp hk with hk | hk
    · exact h'.advances.executed k (h.done k hk)
    · exact h'.done k hk

theorem SameBehaviors.attaches (h : d.SameBehaviors e) : d.Attaches e :=
  .of_forall₂ (h.own ▸ List.prefix_refl _) (h.inTables.imp fun _ _ htu => ⟨htu.1, htu.2 ▸ List.prefix_refl _⟩)

/-! ### One queue -/

section Queue
variable {κ : Type} {pending : Database → List κ} {run : κ → Edit Database Bool}

/-- A queue is worked off once per key if each run marks the behavior of its key and attaches at most
    others. -/
theorem once_of_marks (key : κ → HookRun) (hinj : Function.Injective key)
    (hpending : ∀ {d k}, d.tableNames.Nodup → d.Unshadowed → k ∈ pending d → d.Holds Behavior.Waiting (key k))
    (hrun : ∀ {k d b e}, (run k).Gives d b e →
      b = false ∧ e = d ∧ ¬d.Holds Behavior.Waiting (key k) ∨ b = true ∧ ∃ m, d.Attaches m ∧ e = m.mark (key k)) :
    Worklist.Once pending run (·.tableNames.Nodup) Unshadowed (fun d k => d.Holds Behavior.Waiting (key k))
      (fun d k => d.Holds Behavior.Executed (key k)) := by
  have hadvances : ∀ {k d b e}, (run k).Gives d b e → d.Advances e := fun h => by
    obtain ⟨-, rfl, -⟩ | ⟨-, m, hm, rfl⟩ := hrun h
    · exact .refl _
    · exact hm.advances.trans (advances_mark _ _)
  exact {
    inv := fun h => (hadvances h).names
    good := fun h => (hadvances h).unshadowed
    pending := hpending
    not_done := fun ⟨bs, hbs, hw⟩ ⟨cs, hcs, he⟩ => by
      rw [hbs] at hcs
      cases hcs
      exact hw.not_executed he
    runs := fun hw h => by
      obtain ⟨-, -, hnot⟩ | ⟨hb, m, hm, rfl⟩ := hrun h
      · exact absurd hw hnot
      · exact ⟨hb, (hm.holds Behavior.Waiting.of_prefix hw).mark_self⟩
    waits := fun h hne hw => by
      obtain ⟨-, rfl, -⟩ | ⟨-, m, hm, rfl⟩ := hrun h
      · exact hw
      · exact (hm.holds Behavior.Waiting.of_prefix hw).mark_of_ne fun heq => hne (hinj heq)
    done := fun h => (hadvances h).executed _ }

end Queue

section Hooks
variable (hr : r.HooksObey Attaches)
include hr

theorem once_runBehavior : Worklist.Once pendingBehaviors (runBehavior r) (·.tableNames.Nodup) Unshadowed
    (fun d id => d.Holds Behavior.Waiting (.database id)) (fun d id => d.Holds Behavior.Executed (.database id)) := by
  refine once_of_marks .database (fun _ _ h => HookRun.database.inj h) (fun _ hd hid => waiting_of_mem_pendingBehaviors hd hid)
    fun {id d b e} h => ?_
  obtain ⟨hb, hnone, rfl⟩ | ⟨hb, x, m, -, hm, rfl⟩ := gives_runBehavior h
  · refine Or.inl ⟨hb, rfl, fun hw => ?_⟩
    obtain ⟨x, hx, -⟩ := holds_database.mp hw
    rw [behavior?, hx] at hnone
    cases hnone
  · refine Or.inr ⟨hb, m, ?_, rfl⟩
    rcases hm with ⟨hook, hhook, hm⟩ | hm | rfl
    · exact hr.database hhook hm
    · exact attaches_spread hm
    · exact .refl _

theorem once_runTableBehavior :
    Worklist.Once pendingTableBehaviors (runTableBehavior r) (·.tableNames.Nodup) Unshadowed
      (fun d key => d.Holds Behavior.Waiting (.table key.1 key.2))
      (fun d key => d.Holds Behavior.Executed (.table key.1 key.2)) := by
  refine once_of_marks (fun key => .table key.1 key.2)
    (fun _ _ h => Prod.ext (HookRun.table.inj h).1 (HookRun.table.inj h).2)
    (fun hn hd hkey => waiting_of_mem_pendingTableBehaviors hn hd hkey) fun {key d b e} h => ?_
  obtain ⟨hb, hnone, rfl⟩ | ⟨hb, x, m, -, hm, rfl⟩ := gives_runTableBehavior h
  · refine Or.inl ⟨hb, rfl, fun hw => ?_⟩
    obtain ⟨t, ht, x, hx, -⟩ := holds_table.mp hw
    rw [ht, Option.bind_some, Table.behavior?, hx] at hnone
    cases hnone
  · refine Or.inr ⟨hb, m, ?_, rfl⟩
    rcases hm with ⟨hook, hhook, hm⟩ | ⟨-, rfl⟩
    · exact hr.table hhook hm
    · exact .refl _

/-! ### All the runs of a call -/

/-- The database behaviors that are pending run first, in their order. -/
theorem runsOnce_runBehaviors (hd : d.tableNames.Nodup) {ids : List String}
    (h : (runBehaviors limit r).Gives d ids e) (he : e.Unshadowed) :
    d.RunsOnce (ids.map .database) e ∧ d.pendingBehaviors <+: ids := by
  have hadv := hr.settles.runBehaviors h
  obtain ⟨hpre, hnodup, hall⟩ := (once_runBehavior hr).work hd h he
  -- Pending ids do not repeat, so all of them enter the list, in their order.
  have hwaiting := Worklist.waiting_pushAll (w := {}) (nodup_pendingBehaviors (hadv.unshadowed he))
    fun k _ hk => by cases hk
  rw [hwaiting] at hpre
  refine ⟨⟨hadv, hnodup.map fun _ _ h => HookRun.database.inj h, fun k hk => ?_, fun k hk => ?_⟩, hpre⟩
  · obtain ⟨id, hid, rfl⟩ := List.mem_map.mp hk
    exact (hall id hid).1
  · obtain ⟨id, hid, rfl⟩ := List.mem_map.mp hk
    exact (hall id hid).2

theorem runsOnce_runTableBehaviors (hd : d.tableNames.Nodup) {keys : List (String × String)}
    (h : (runTableBehaviors limit r).Gives d keys e) (he : e.Unshadowed) :
    d.RunsOnce (keys.map fun key => .table key.1 key.2) e := by
  have hadv := hr.settles.runTableBehaviors h
  obtain ⟨-, hnodup, hall⟩ := (once_runTableBehavior hr).work hd h he
  refine ⟨hadv, ?_, fun k hk => ?_, fun k hk => ?_⟩
  · exact hnodup.map fun _ _ h => Prod.ext (HookRun.table.inj h).1 (HookRun.table.inj h).2
  · obtain ⟨key, hkey, rfl⟩ := List.mem_map.mp hk
    exact (hall key hkey).1
  · obtain ⟨key, hkey, rfl⟩ := List.mem_map.mp hk
    exact (hall key hkey).2

theorem runsOnce_settleRound (hd : d.tableNames.Nodup) (h : (settleRound limit r).Gives d ran e) (he : e.Unshadowed) :
    d.RunsOnce ran e ∧ d.pendingBehaviors.map .database <+: ran := by
  obtain ⟨ids, m, keys, hids, hkeys, rfl⟩ := gives_settleRound.mp h
  have hadv := hr.settles.runTableBehaviors hkeys
  obtain ⟨hfirst, hpre⟩ := runsOnce_runBehaviors hr hd hids (hadv.unshadowed he)
  have hsecond := runsOnce_runTableBehaviors hr ((hr.settles.runBehaviors hids).names hd) hkeys he
  exact ⟨hfirst.append hsecond, (hpre.map _).trans (List.prefix_append _ _)⟩

theorem runsOnce_settleRounds (hd : d.tableNames.Nodup) (h : (settleRounds limit r rounds).Gives d ran e)
    (he : e.Unshadowed) : d.RunsOnce ran e ∧ d.pendingBehaviors.map .database <+: ran := by
  revert hd
  refine settleRounds_induction (motive := fun d ran =>
    d.tableNames.Nodup → d.RunsOnce ran e ∧ d.pendingBehaviors.map .database <+: ran) ?_ ?_ h
  · intro d hlast hd
    exact runsOnce_settleRound hr hd hlast he
  · intro d first m later n hfirst hlater ih hd
    -- Distinctness goes forward through the rounds, but shadowing is excluded from the end.
    have hm : m.Unshadowed := (hr.settles.settleRounds hlater).unshadowed he
    obtain ⟨honce, hpre⟩ := runsOnce_settleRound hr hd hfirst hm
    obtain ⟨hrest, -⟩ := ih ((hr.settles.settleRound hfirst).names hd)
    exact ⟨honce.append hrest, hpre.trans (List.prefix_append _ _)⟩

theorem runsOnce_finalize (hd : d.tableNames.Nodup) (h : (finalize limit r p).Gives d ran e) :
    d.RunsOnce ran e ∧ e.Quiet ∧ d.pendingBehaviors.map .database <+: ran := by
  obtain ⟨m, hm, he⟩ := gives_finalize.mp h
  have hquiet : m.Quiet := quiet_of_settle hr.settles (P := (·.tableNames.Nodup)) (fun h => h.names) id hd hm
  have hsame := sameBehaviors_finalizeTables he
  obtain ⟨honce, hpre⟩ := runsOnce_settleRounds hr hd hm hquiet.unshadowed
  have hcall := honce.append hsame.attaches.advances.runsOnce
  rw [List.append_nil] at hcall
  exact ⟨hcall, hsame.quiet hquiet, hpre⟩

/-! ### Sequences of calls -/

omit hr in
theorem Quiet.executed (h : d.Quiet) :
    (∀ b ∈ d.behaviors, b.executed = true) ∧ ∀ t ∈ d.tables, ∀ b ∈ t.behaviors, b.executed = true := by
  constructor
  · intro b hb
    by_contra he
    have hmem := mem_pendingBehaviors.mpr ⟨b, hb, by simpa using he, rfl⟩
    rw [h.own] at hmem
    cases hmem
  · intro t ht b hb
    by_contra he
    have hmem : (t.name, b.id) ∈ d.pendingTableBehaviors :=
      mem_pendingTableBehaviors.mpr ⟨t, ht, rfl, b, hb, by simpa using he, rfl⟩
    rw [h.inTables] at hmem
    cases hmem

end Hooks

/-- Successful calls of finalization on one database, one after another, with the behaviors that they
    ran. Between two calls more may be attached. -/
inductive Calls (r : Registry) (d : Database) : List HookRun → Database → Prop
  | start : Calls r d [] d
  | attach {ran : List HookRun} {m e : Database} (before : Calls r d ran m) (h : m.Attaches e) : Calls r d ran e
  | call {ran more : List HookRun} {m e : Database} {limit : Nat} {p : Platform} (before : Calls r d ran m)
      (h : (finalize limit r p).Gives m more e) : Calls r d (ran ++ more) e

theorem Calls.runsOnce (hr : r.HooksObey Attaches) (hd : d.tableNames.Nodup) (h : Calls r d ran e) :
    d.RunsOnce ran e := by
  induction h with
  | start => exact (Advances.refl d).runsOnce
  | attach before h ih =>
    have hmore := ih.append h.advances.runsOnce
    rwa [List.append_nil] at hmore
  | call before h ih => exact ih.append (runsOnce_finalize hr (ih.advances.names hd) h).1

/-- Over any sequence of calls no behavior runs twice. A further call that succeeds leaves every behavior
    executed, and it begins with the pending behaviors of the database, in their order. -/
theorem behaviors_run_once (hr : r.HooksObey Attaches) (hd : d.tableNames.Nodup) (hcalls : Calls r d ran e)
    (h : (finalize limit r p).Gives e more f) :
    (ran ++ more).Nodup ∧ (∀ b ∈ f.behaviors, b.executed = true) ∧
      (∀ t ∈ f.tables, ∀ b ∈ t.behaviors, b.executed = true) ∧ e.pendingBehaviors.map .database <+: more := by
  obtain ⟨-, hquiet, hpre⟩ := runsOnce_finalize hr ((hcalls.runsOnce hr hd).advances.names hd) h
  have hall := (Calls.call hcalls h).runsOnce hr hd
  exact ⟨hall.nodup, hquiet.executed.1, hquiet.executed.2, hpre⟩

/-- Attaches a behavior that has its name for an id. -/
def attachToDatabase (name : String) : Edit Database Unit :=
  Change.attempt (·.addBehavior { name := name, id := name })

def attachToTable (pos : Nat) (name : String) : Edit Database Unit :=
  editAt pos (Change.attempt (·.addBehavior { name := name, id := name }))

theorem attaches_attachToDatabase {name : String} {w : Unit} (h : (attachToDatabase name).Gives d w e) : d.Attaches e :=
  attaches_addBehavior (Change.gives_attempt.mp h)

theorem attaches_attachToTable {pos : Nat} {name : String} {w : Unit} (h : (attachToTable pos name).Gives d w e) :
    d.Attaches e := by
  refine attaches_editAt h fun t u htu => ?_
  obtain ⟨rfl, -⟩ := Table.addBehavior_eq_ok (Change.gives_attempt.mp htu)
  exact ⟨rfl, List.prefix_append _ _⟩

/-- Plugins that hand over to one another: from the database to a table, back to the database, and on to
    a table that did not exist at the start. -/
def relay : Registry :=
  Dictionary.ofList
    [("first", { databaseHook := some fun _ => attachToTable 0 "second" }),
     ("second", { tableHook := some fun _ _ => attachToDatabase "third" }),
     ("third",
      { databaseHook := some fun _ => do
          Change.attempt (·.addTable { name := "log" })
          attachToTable 1 "last" }),
     ("last", { tableHook := some fun _ _ => pure () })]

theorem relay_attaches : relay.HooksObey Attaches := by
  refine Registry.hooksObey_ofList fun q hq => ?_
  simp only [List.mem_cons, List.not_mem_nil, or_false] at hq
  rcases hq with rfl | rfl | rfl | rfl
  · constructor
    · rintro hook ⟨⟩ b d e h
      exact attaches_attachToTable h
    · rintro hook ⟨⟩
  · constructor
    · rintro hook ⟨⟩
    · rintro hook ⟨⟩ b name d e h
      exact attaches_attachToDatabase h
  · constructor
    · rintro hook ⟨⟩ b d e h
      obtain ⟨_, m, hm, he⟩ := Change.gives_bind.mp h
      exact (attaches_addTable (Change.gives_attempt.mp hm)).trans (attaches_attachToTable he)
    · rintro hook ⟨⟩
  · constructor
    · rintro hook ⟨⟩
    · rintro hook ⟨⟩ b name d e h
      obtain ⟨-, rfl⟩ := Change.gives_pure.mp h
      exact .refl _

/-- A database whose behavior starts the relay. -/
def track : Database where
  name := "track"
  tables := [{ name := "lane" }]
  behaviors := [{ name := "first", id := "first" }]

def firstRuns : List HookRun :=
  [.database "first", .table "lane" "second", .database "third", .table "log" "last"]

/-- What a second call runs once `last` belongs to the database too: it goes to the table that lacks it. -/
def secondRuns : List HookRun :=
  [.database "last", .table "lane" "last"]

theorem behaviors_run_once_relay : relay.HooksObey Attaches ∧ track.tableNames.Nodup ∧ ∃ d e f,
    (finalize settleLimit relay (.plain .generic)).Gives track firstRuns d ∧
      (attachToDatabase "last").Gives d () e ∧
      (finalize settleLimit relay (.plain .generic)).Gives e secondRuns f ∧
      (firstRuns ++ secondRuns).Nodup ∧ (∀ b ∈ f.behaviors, b.executed = true) ∧
      (∀ t ∈ f.tables, ∀ b ∈ t.behaviors, b.executed = true) ∧
      e.pendingBehaviors.map .database <+: secondRuns := by
  have hd : track.tableNames.Nodup := by decide
  have hfirst : (finalize settleLimit relay (.plain .generic)).Gives track firstRuns
      (finalize settleLimit relay (.plain .generic) track).state := ⟨rfl, rfl⟩
  have hlast : (attachToDatabase "last").Gives (finalize settleLimit relay (.plain .generic) track).state ()
      (attachToDatabase "last" (finalize settleLimit relay (.plain .generic) track).state).state := ⟨rfl, rfl⟩
  have hcalls := (Calls.call .start hfirst).attach (attaches_attachToDatabase hlast)
  have hsecond : (finalize settleLimit relay (.plain .generic)).Gives
      (attachToDatabase "last" (finalize settleLimit relay (.plain .generic) track).state).state secondRuns _ :=
    ⟨rfl, rfl⟩
  exact ⟨relay_attaches, hd, _, _, _, hfirst, hlast, hsecond, behaviors_run_once relay_attaches hd hcalls hsecond⟩

end Schemata.Database
