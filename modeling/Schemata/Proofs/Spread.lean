import Schemata.Proofs.Rounds

/-!
# Behaviors that go to all tables

A behavior of a database whose plugin has a hook for tables alone is copied to the tables. A table is passed
over exactly when it would refuse the copy (`Table.carries_iff_refuses`), so the copying never fails, and
afterwards every table carries the behavior in its way. A database that has only such behaviors pending copies
them one after another in their order, and nothing comes up meanwhile.
-/

namespace Schemata

open Change

/-! ### One table -/

namespace Table
variable {t u : Table} {b : Behavior}

/-- The table has a behavior of the id, or one of the name where there may be only one. -/
def Carries (t : Table) (b : Behavior) : Prop :=
  ∃ c ∈ t.behaviors, c.id = b.id ∨ c.name = b.name ∧ b.multiple = false

/-- The table with a copy of the behavior behind its own ones. -/
def withCopy (b : Behavior) (t : Table) : Table :=
  { t with behaviors := t.behaviors ++ [{ b with table := some t.name, executed := false }] }

/-- The table with the behavior, which it may carry already. -/
def takeOn (b : Behavior) (t : Table) : Table :=
  if Behavior.isTaken t.behaviors b then t else t.withCopy b

theorem isTaken_iff_carries : Behavior.isTaken t.behaviors b = true ↔ t.Carries b := by
  simp [Behavior.isTaken, Carries]

theorem takeOn_of_carries (h : t.Carries b) : t.takeOn b = t :=
  if_pos (isTaken_iff_carries.mpr h)

theorem takeOn_of_not_carries (h : ¬t.Carries b) : t.takeOn b = t.withCopy b :=
  if_neg (mt isTaken_iff_carries.mp h)

theorem carries_takeOn (b : Behavior) (t : Table) : (t.takeOn b).Carries b := by
  by_cases h : t.Carries b
  · rwa [takeOn_of_carries h]
  · rw [takeOn_of_not_carries h]
    exact ⟨_, List.mem_append_right _ List.mem_cons_self, .inl rfl⟩

theorem addBehavior_forTable :
    t.addBehavior (b.forTable t.name) = .ok u ↔ Behavior.isTaken t.behaviors b = false ∧ u = t.withCopy b := by
  have hattach : ∀ bs,
      Behavior.attach (.table t.name) t.behaviors { b.forTable t.name with table := some t.name } = .ok bs ↔
        Behavior.isTaken t.behaviors b = false ∧ bs = (t.withCopy b).behaviors := fun _ => Behavior.attach_eq_ok
  unfold addBehavior
  constructor
  · intro h
    cases ha : Behavior.attach (.table t.name) t.behaviors { b.forTable t.name with table := some t.name } with
    | error err =>
      rw [ha] at h
      cases h
    | ok bs =>
      obtain ⟨hfree, rfl⟩ := (hattach bs).mp ha
      rw [ha] at h
      exact ⟨hfree, (Except.ok.inj h).symm⟩
  · rintro ⟨hfree, rfl⟩
    rw [(hattach _).mpr ⟨hfree, rfl⟩]
    rfl

/-- A table refuses the copies of just those behaviors that it carries. -/
theorem carries_iff_refuses : t.Carries b ↔ ∃ err, t.addBehavior (b.forTable t.name) = .error err := by
  rw [← isTaken_iff_carries]
  cases hadd : t.addBehavior (b.forTable t.name) with
  | ok u =>
    obtain ⟨hfree, -⟩ := addBehavior_forTable.mp hadd
    simp [hfree]
  | error err =>
    refine iff_of_true ?_ ⟨err, rfl⟩
    rw [← Bool.not_eq_false]
    intro hfree
    rw [addBehavior_forTable.mpr ⟨hfree, rfl⟩] at hadd
    cases hadd

end Table

/-! ### One behavior -/

/-- The plugin has a hook for tables and none for databases. -/
structure Registry.SpreadsOnly (r : Registry) (b : Behavior) : Prop where
  database : r.databaseHook? b = none
  table : (r.tableHook? b).isSome

namespace Database
variable {d e : Database} {r : Registry} {b : Behavior} {bs : List Behavior} {ran : Bool}

/-- Every table takes the behavior on, and the behavior is marked. -/
def spreading (b : Behavior) (d : Database) : Database :=
  ({ d with tables := d.tables.map (Table.takeOn b) }).mark (.database b.id)

theorem gives_spread_iff :
    (spread b).Gives d () e ↔ e = { d with tables := d.tables.map (Table.takeOn b) } := by
  have htable : ∀ t u : Table, (if Behavior.isTaken t.behaviors b then .ok t else t.addBehavior (b.forTable t.name)) =
      .ok u ↔ t.takeOn b = u := fun t u => by
    by_cases h : Behavior.isTaken t.behaviors b = true
    · rw [if_pos h, Table.takeOn, if_pos h, Except.ok.injEq]
    · rw [if_neg h, Table.addBehavior_forTable, Table.takeOn, if_neg h]
      simp [h, eq_comm]
  simp only [spread, gives_within, gives_each, gives_attempt, htable, ← List.forall₂_map_left_iff,
    List.forall₂_eq_eq_eq, exists_eq_left']

theorem gives_runBehavior_iff (hids : (d.behaviors.map (·.id)).Nodup) (hb : b ∈ d.behaviors) (hr : r.SpreadsOnly b) :
    (runBehavior r b.id).Gives d ran e ↔ ran = true ∧ e = d.spreading b := by
  have hfind : d.behavior? b.id = some b := find?_key hids hb
  have hspread : ∀ m, (spread b).Gives d () m ↔ m = { d with tables := d.tables.map (Table.takeOn b) } := fun m =>
    gives_spread_iff
  simp only [runBehavior, gives_bind, gives_get]
  constructor
  · rintro ⟨_, _, ⟨rfl, rfl⟩, h⟩
    simp only [hfind, hr.database, hr.table, if_true, gives_bind, gives_modify, gives_pure, hspread] at h
    obtain ⟨_, _, rfl, _, _, rfl, rfl, rfl⟩ := h
    exact ⟨rfl, rfl⟩
  · rintro ⟨rfl, rfl⟩
    refine ⟨d, d, ⟨rfl, rfl⟩, ?_⟩
    simp only [hfind, hr.database, hr.table, if_true, gives_bind, gives_modify, gives_pure, hspread]
    exact ⟨(), _, rfl, (), _, rfl, trivial, rfl⟩

/-- Running a behavior that goes to the tables never fails. It changes nothing but the tables that do not carry it,
    which get a copy, and its own mark; the tables that are passed over are just those that would refuse the copy. -/
theorem runBehavior_spreads (hids : (d.behaviors.map (·.id)).Nodup) (hb : b ∈ d.behaviors) (hr : r.SpreadsOnly b) :
    (∀ t : Table, (Behavior.isTaken t.behaviors b = true ↔ t.Carries b) ∧
        (t.Carries b ↔ ∃ err, t.addBehavior (b.forTable t.name) = .error err)) ∧
      ∃ us, (runBehavior r b.id).Gives d true
          { d with
            tables := us
            behaviors := d.behaviors.map fun c => if c.id = b.id then { c with executed := true } else c } ∧
        List.Forall₂ (fun t u => u.Carries b ∧ (t.Carries b → u = t) ∧ (¬t.Carries b → u = t.withCopy b))
          d.tables us := by
  refine ⟨fun t => ⟨Table.isTaken_iff_carries, Table.carries_iff_refuses⟩, d.tables.map (Table.takeOn b), ?_, ?_⟩
  · refine (gives_runBehavior_iff hids hb hr).mpr ⟨rfl, ?_⟩
    rw [spreading, mark, modifyBehavior, modifyFirst_eq_map hids]
  · rw [List.forall₂_map_right_iff, List.forall₂_same]
    exact fun t _ => ⟨Table.carries_takeOn b t, Table.takeOn_of_carries, Table.takeOn_of_not_carries⟩

/-- Labels do nothing; an owner has one stamp but any number of tags. -/
def labels : Registry :=
  Dictionary.ofList
    [("stamp", { tableHook := some fun _ _ => pure () }),
     ("tag", { multiple := true, tableHook := some fun _ _ => pure () })]

/-- A tag whose id is the name of the other label. -/
def tag : Behavior where
  name := "tag"
  id := "stamp"
  multiple := true

def office : Database where
  name := "office"
  behaviors := [{ name := "stamp", id := "mark" }, tag]
  tables :=
    [{ name := "desk", behaviors := [{ name := "stamp", id := "stamp", table := some "desk" }] },
     { name := "shelf", behaviors := [{ name := "tag", id := "tag", table := some "shelf", multiple := true }] },
     { name := "door" }]

/-- The desk carries its id, the shelf and the door do not, although the shelf has a tag. -/
theorem runBehavior_spreads_office :
    (office.behaviors.map (·.id)).Nodup ∧ tag ∈ office.behaviors ∧ labels.SpreadsOnly tag ∧
      ∃ us, (runBehavior labels "stamp").Gives office true
          { office with
            tables := us
            behaviors := [{ name := "stamp", id := "mark" }, { tag with executed := true }] } ∧
        us.map (fun t => t.behaviors.map fun b => (b.id, b.table)) =
          [[("stamp", some "desk")], [("tag", some "shelf"), ("stamp", some "shelf")], [("stamp", some "door")]] ∧
        List.Forall₂ (fun t u => u.Carries tag ∧ (t.Carries tag → u = t) ∧ (¬t.Carries tag → u = t.withCopy tag))
          office.tables us := by
  have hids : (office.behaviors.map (·.id)).Nodup := by decide
  have hb : tag ∈ office.behaviors := by decide
  have hr : labels.SpreadsOnly tag := ⟨rfl, rfl⟩
  obtain ⟨-, us, hrun, htables⟩ := runBehavior_spreads hids hb hr
  have hus : (runBehavior labels "stamp" office).state.tables = us := congrArg Database.tables hrun.2
  refine ⟨hids, hb, hr, us, hrun, ?_, htables⟩
  rw [← hus]
  rfl

/-! ### All pending behaviors -/

theorem behaviors_spreading (hids : (d.behaviors.map (·.id)).Nodup) : (d.spreading b).behaviors =
    d.behaviors.map fun c => if c.id = b.id then { c with executed := true } else c :=
  modifyFirst_eq_map hids

theorem map_id_spreading (b : Behavior) (d : Database) :
    (d.spreading b).behaviors.map (·.id) = d.behaviors.map (·.id) :=
  map_modifyFirst (f := fun c : Behavior => { c with executed := true }) (g := (·.id)) (fun _ => rfl) d.behaviors

/-- Every table takes the behaviors on in their order, and all behaviors are marked. -/
def spreadingAll (bs : List Behavior) (d : Database) : Database :=
  { d with
    tables := d.tables.map (bs.foldl fun t b => t.takeOn b)
    behaviors := d.behaviors.map ({ · with executed := true }) }

theorem spreadingAll_spreading (b : Behavior) (bs : List Behavior) (d : Database) :
    (d.spreading b).spreadingAll bs = d.spreadingAll (b :: bs) := by
  have hmarked : (d.spreading b).behaviors.map ({ · with executed := true }) =
      d.behaviors.map ({ · with executed := true }) :=
    map_modifyFirst (f := fun c : Behavior => { c with executed := true }) (fun _ => rfl) d.behaviors
  have htables : (d.spreading b).tables = d.tables.map (Table.takeOn b) := rfl
  rw [spreadingAll, hmarked, htables, List.map_map]
  rfl

/-- Without pending behaviors there is nothing to do. -/
theorem spreadingAll_nil (h : d.behaviors.filter (!·.executed) = []) : d.spreadingAll [] = d := by
  have hdone : ∀ c ∈ d.behaviors, { c with executed := true } = c := fun c hc => by
    have hexecuted : c.executed = true := by simpa using List.filter_eq_nil_iff.mp h c hc
    rw [← hexecuted]
  simp [spreadingAll, List.map_congr_left hdone]

/-- What a mark leaves pending. -/
theorem filter_spreading (hids : (d.behaviors.map (·.id)).Nodup) (hbs : d.behaviors.filter (!·.executed) = b :: bs) :
    (d.spreading b).behaviors.filter (!·.executed) = bs := by
  -- The ids are distinct, so the mark is on `b` alone.
  have hrest : b.id ∉ bs.map (·.id) := by
    have hpending := hids.sublist ((List.filter_sublist (p := fun c : Behavior => !c.executed)).map _)
    rw [hbs] at hpending
    exact (List.nodup_cons.mp hpending).1
  have hmark : ((fun c : Behavior => !c.executed) ∘ fun c => if c.id = b.id then { c with executed := true } else c) =
      fun c => decide (c.id ≠ b.id) && !c.executed := funext fun c => by
    by_cases hc : c.id = b.id <;> simp [hc]
  have hkept : ∀ c ∈ bs, (if c.id = b.id then { c with executed := true } else c) = c := fun c hc =>
    if_neg fun heq => hrest (List.mem_map.mpr ⟨c, hc, heq⟩)
  have hothers : bs.filter (fun c => decide (c.id ≠ b.id)) = bs := List.filter_eq_self.mpr fun c hc => by
    simpa using fun heq => hrest (List.mem_map.mpr ⟨c, hc, heq⟩)
  rw [behaviors_spreading hids, List.filter_map, hmark, ← List.filter_filter, hbs,
    List.filter_cons_of_neg (by simp), hothers, List.map_congr_left hkept, List.map_id']

theorem drain_spreads (hids : (d.behaviors.map (·.id)).Nodup) (hbs : d.behaviors.filter (!·.executed) = bs)
    (hr : ∀ b ∈ bs, r.SpreadsOnly b) {w : Worklist String} (hw : w.waiting = bs.map (·.id))
    (hseen : ∀ b ∈ bs, b.id ∈ w.seen) (slack : Nat) :
    (Worklist.drain pendingBehaviors (runBehavior r) unsettled (slack + bs.length) w).Gives d (bs.map (·.id))
      (d.spreadingAll bs) := by
  induction bs generalizing d w with
  | nil => exact (Worklist.gives_drain_nil hw).mpr ⟨rfl, spreadingAll_nil hbs⟩
  | cons b bs ih =>
    have hb : b ∈ d.behaviors := List.mem_of_mem_filter (hbs ▸ List.mem_cons_self)
    have hrest := filter_spreading hids hbs
    have hpending : (d.spreading b).pendingBehaviors = bs.map (·.id) := by
      rw [pendingBehaviors, hrest]
    have hids' : ((d.spreading b).behaviors.map (·.id)).Nodup := by
      rwa [map_id_spreading]
    have hseen' : ∀ c ∈ bs, c.id ∈ w.seen := fun c hc => hseen c (List.mem_cons_of_mem _ hc)
    rw [← spreadingAll_spreading]
    refine Worklist.gives_drain_step hw ((gives_runBehavior_iff hids hb (hr b List.mem_cons_self)).mpr ⟨rfl, rfl⟩) ?_
    -- What is pending now has waited all the time, so nothing is added to the list.
    have hsame : Worklist.pushAll { w with waiting := bs.map (·.id) } (bs.map (·.id)) =
        { w with waiting := bs.map (·.id) } :=
      Worklist.pushAll_of_seen (List.forall_mem_map.mpr hseen')
    rw [hpending, hsame]
    exact ih hids' hrest (fun c hc => hr c (List.mem_cons_of_mem _ hc)) rfl hseen'

/-- Behaviors that go to the tables are copied in their order without fail, and then nothing is pending. -/
theorem runBehaviors_spreads (hids : (d.behaviors.map (·.id)).Nodup)
    (hr : ∀ b ∈ d.behaviors, b.executed = false → r.SpreadsOnly b) (slack : Nat) :
    (runBehaviors slack r).Gives d d.pendingBehaviors (d.spreadingAll (d.behaviors.filter (!·.executed))) := by
  have hpending : d.pendingBehaviors.Nodup := hids.sublist (List.filter_sublist.map _)
  refine Worklist.gives_work.mpr ?_
  rw [pendingBehaviors, List.length_map]
  refine drain_spreads hids rfl (fun b hb => ?_) ?_ (fun b hb => ?_) slack
  · obtain ⟨hmem, hwaits⟩ := List.mem_filter.mp hb
    exact hr b hmem (by simpa using hwaits)
  · exact Worklist.waiting_pushAll hpending fun _ _ => List.not_mem_nil
  · have hwaits : b.id ∈ (Worklist.pushAll {} d.pendingBehaviors).waiting :=
      Worklist.mem_waiting_pushAll (List.mem_map_of_mem hb) List.not_mem_nil
    exact (Worklist.sound_empty.pushAll _).seen _ hwaits

end Database

end Schemata
