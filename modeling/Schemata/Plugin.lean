import Schemata.Database

/-!
# Plugins

A plugin is what a behavior does. It may change the database, once for a behavior of the database and
once for each behavior of a table, and it may contribute code to what is generated for a table. Plugins
are found by name in a registry.
-/

namespace Schemata

/-- The parts of the generated code to which a plugin can contribute. -/
inductive CodeTarget where
  | object
  | query
  | tableMap
deriving DecidableEq, Repr, Inhabited

structure CodeModifier where
  hooks : List String
  render : String → Behavior → Table → Option String

structure Plugin where
  /-- Parameters that a behavior has unless it is given others. -/
  defaults : List (String × String) := []
  multiple : Bool := false
  databaseHook : Option (Behavior → Edit Database Unit) := none
  /-- The hook for a table, which is given by its name. -/
  tableHook : Option (Behavior → String → Edit Database Unit) := none
  code : CodeTarget → Option CodeModifier := fun _ => none

abbrev Registry : Type := Dictionary Plugin

namespace Registry

def create (r : Registry) (name : String) : Except Error Behavior :=
  match r.get? name with
  | some plugin =>
    .ok
      { name := name
        id := name
        parameters := Dictionary.ofList plugin.defaults
        multiple := plugin.multiple }
  | none => .error (.reference (.unregisteredBehavior name r.keys))

def databaseHook? (r : Registry) (b : Behavior) : Option (Behavior → Edit Database Unit) :=
  (r.get? b.name).bind (·.databaseHook)

def tableHook? (r : Registry) (b : Behavior) : Option (Behavior → String → Edit Database Unit) :=
  (r.get? b.name).bind (·.tableHook)

def code? (r : Registry) (b : Behavior) (target : CodeTarget) : Option CodeModifier :=
  (r.get? b.name).bind (·.code target)

end Registry

/-- The behaviors of a table that contribute to a target, in order, with what they contribute. -/
def Table.codeModifiers (t : Table) (r : Registry) (target : CodeTarget) :
    List (Behavior × CodeModifier) :=
  t.behaviors.filterMap fun b => (r.code? b target).map fun m => (b, m)

end Schemata
