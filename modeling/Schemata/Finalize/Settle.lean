import Schemata.Plugin
import Schemata.Worklist

/-!
# Running behaviors

Before a database is finalized, the hooks of its behaviors run: first those of the database, then those
of its tables, and again until a round finds none left, since a hook may attach behaviors of either
kind. A behavior that has run is marked and does not run again. A database behavior that has only a
hook for tables is attached to every table instead.
-/

namespace Schemata

inductive HookRun where
  | database (id : String)
  | table (table id : String)
deriving DecidableEq, Repr, Inhabited

/-- The limit that a user of the library gets: how many behaviors may come up in one round, and how
    many rounds there may be, before the behaviors of a database count as endless. -/
def settleLimit : Nat := Nat.pow 2 20

namespace Database

def unsettled (d : Database) : Error :=
  .constraint (.unsettledBehaviors d.name)

/-! ### Behaviors of the database -/

def pendingBehaviors (d : Database) : List String :=
  (d.behaviors.filter (!·.executed)).map (·.id)

/-- Attaches a copy of a behavior to every table on which nothing clashes with it. -/
def spread (b : Behavior) : Edit Database Unit :=
  Change.within (·.tables) (fun ts d => { d with tables := ts })
    (Change.each (Change.attempt fun t =>
      if Behavior.isTaken t.behaviors b then .ok t else t.addBehavior (b.forTable t.name)))

/-- Runs the behavior of an id, if the database still has one. -/
def runBehavior (r : Registry) (id : String) : Edit Database Bool := do
  let d ← Change.get
  match d.behavior? id with
  | none => pure false
  | some b =>
    match r.databaseHook? b with
    | some hook =>
      Change.report (.runningDatabaseBehavior d.name id)
      hook b
    | none => if (r.tableHook? b).isSome then spread b
    Change.modify (·.modifyBehavior id ({ · with executed := true }))
    pure true

/-- Runs the pending behaviors of the database and those that come up meanwhile. -/
def runBehaviors (limit : Nat) (r : Registry) : Edit Database (List String) :=
  Worklist.work limit pendingBehaviors (runBehavior r) unsettled

/-! ### Behaviors of the tables -/

/-- The behaviors of tables that have not run, as names of tables and ids. -/
def pendingTableBehaviors (d : Database) : List (String × String) :=
  d.tables.flatMap fun t => (t.behaviors.filter (!·.executed)).map fun b => (t.name, b.id)

/-- Runs the behavior of an id on a table, if both are still there. -/
def runTableBehavior (r : Registry) (key : String × String) : Edit Database Bool := do
  let d ← Change.get
  match (d.table? key.1).bind (·.behavior? key.2) with
  | none => pure false
  | some b =>
    match r.tableHook? b with
    | some hook =>
      Change.report (.runningTableBehavior key.1 key.2)
      hook b key.1
    | none => pure ()
    Change.modify (·.modifyTable key.1 (·.modifyBehavior key.2 ({ · with executed := true })))
    pure true

/-- Runs the pending behaviors of the tables and those that come up meanwhile. -/
def runTableBehaviors (limit : Nat) (r : Registry) : Edit Database (List (String × String)) :=
  Worklist.work limit pendingTableBehaviors (runTableBehavior r) unsettled

/-! ### Both -/

/-- One round over the behaviors of the database and those of its tables. -/
def settleRound (limit : Nat) (r : Registry) : Edit Database (List HookRun) := do
  let ids ← runBehaviors limit r
  let keys ← runTableBehaviors limit r
  pure (ids.map .database ++ keys.map fun k => .table k.1 k.2)

/-- Rounds until one has nothing to run. -/
def settleRounds (limit : Nat) (r : Registry) : Nat → Edit Database (List HookRun)
  | 0 => do Change.fail (unsettled (← Change.get))
  | rounds + 1 => do
    let ran ← settleRound limit r
    if ran.isEmpty then pure []
    else
      let later ← settleRounds limit r rounds
      pure (ran ++ later)

/-- Runs the behaviors of the database and its tables until none is pending, and gives the behaviors
    that were run, in order. -/
def settle (limit : Nat) (r : Registry) : Edit Database (List HookRun) :=
  settleRounds limit r limit

end Database

end Schemata
