import Schemata.Plugin.Builtin
import Schemata.Script.Step
import Schemata.Script.Template

/-!
# Scripted plugins

A plugin may be written as two lists of steps, one for each hook. The steps run one after another on
the database that is being finalized, and the first one that does not succeed ends the hook. The steps
of a script may run hooks again; how deep they go is limited.
-/

namespace Schemata

structure Script where
  name : String
  defaults : List (String × String) := []
  multiple : Bool := false
  /-- The steps of the hook for a database, if there is one. -/
  database : Option (List Json) := none
  /-- The steps of the hook for a table, if there is one. -/
  table : Option (List Json) := none

namespace Script

def maxDepth : Nat := 256

/-- The error of a hook whose step does not succeed. -/
def hookError : StepError → Error
  | .broken text => .configuration (.brokenScript text)
  | .failed e => e

/-- Whether a step is skipped because something is there already. -/
def isSkipped (d : Database) (step : Json) : Bool :=
  ((text? step "unlessTable").map d.hasTable).getD false
    || ((text? step "unlessDbBehavior").map fun id => (d.behavior? id).isSome).getD false

/-- A step with the table of its hook, unless it names one. -/
def withTable (table : Option String) (step : Json) : Json :=
  match table, step with
  | some name, .obj ms => if (step.get? "table").isSome then step else .obj (Json.setMember ms "table" (.str name))
  | _, _ => step

/-- Runs one step of a hook. -/
def runStep (r : Registry) (b : Behavior) (table : Option String) (step : Json) : Edit Database Unit := do
  let d ← Change.get
  let step := filled b (table.getD "") step
  if isSkipped d step then pure ()
  else do
    let _ ← Change.mapError hookError (databaseStep r (withTable table step))

/-- Runs the steps of a hook, where `r` finds the plugins that the steps may use. -/
def runSteps (r : Registry) (steps : List Json) (b : Behavior) (table : Option String) :
    Edit Database Unit :=
  Change.forEach (runStep r b table) steps

def plugin (r : Registry) (s : Script) : Plugin where
  defaults := s.defaults
  multiple := s.multiple
  databaseHook := s.database.map fun steps b => runSteps r steps b none
  tableHook := s.table.map fun steps b table => runSteps r steps b (some table)

/-- The registry with scripts, of which a later one replaces an earlier one of its name. -/
def register (base : Registry) (inner : Registry) (scripts : List Script) : Registry :=
  scripts.foldl (fun r s => r.insert s.name (s.plugin inner)) base

end Script

/-- The plugins of a base registry and of scripts, whose hooks may run hooks up to a depth. -/
def Registry.withScripts (base : Registry) (scripts : List Script) : Nat → Registry
  | 0 =>
    let failing (s : Script) : Plugin :=
      { s.plugin base with
        databaseHook := s.database.map fun _ _ =>
          Change.fail (.configuration (.brokenScript "hooks are nested too deeply"))
        tableHook := s.table.map fun _ _ _ =>
          Change.fail (.configuration (.brokenScript "hooks are nested too deeply")) }
    scripts.foldl (fun r s => r.insert s.name (failing s)) base
  | depth + 1 => Script.register base (Registry.withScripts base scripts depth) scripts

end Schemata
