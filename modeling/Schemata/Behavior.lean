import Schemata.Dictionary
import Schemata.Error
import Schemata.Text.Blank
import Schemata.Text.Case

/-!
# Behaviors

A behavior names a plugin and gives it parameters. It is attached to a database or to a table under an
id that is unique there; its plugin decides whether the same behavior may be attached more than once.
-/

namespace Schemata

structure Behavior where
  name : String
  id : String
  parameters : Dictionary String := {}
  /-- The table that carries the behavior, none for a database. -/
  table : Option String := none
  executed : Bool := false
  /-- Whether one owner may carry several of this name. -/
  multiple : Bool := false
deriving DecidableEq, Repr, Inhabited

namespace Behavior

def parameter? (b : Behavior) (name : String) : Option String :=
  b.parameters.get? name

def setParameter (b : Behavior) (name value : String) : Behavior :=
  { b with parameters := b.parameters.insert name value }

def flag (b : Behavior) (name : String) : Bool :=
  match b.parameter? name with
  | some v => ["true", "1", "yes", "on"].contains (Text.lower (Text.trimBlanks v))
  | none => false

def forTable (b : Behavior) (table : String) : Behavior :=
  { b with table := some table, executed := false }

/-- Whether `b` may not join `bs`: its id is taken, or it is single and one of its name is there. -/
def isTaken (bs : List Behavior) (b : Behavior) : Bool :=
  bs.any fun c => c.id == b.id || (c.name == b.name && !b.multiple)

/-- The behaviors with one more, unless it clashes with one of them. -/
def attach (owner : BehaviorOwner) (bs : List Behavior) (b : Behavior) : Except Error (List Behavior) :=
  match bs.find? (·.id == b.id) with
  | some holder =>
    if b.id = b.name then .error (.constraint (.duplicateBehavior b.name owner))
    else .error (.constraint (.behaviorIdTaken b.id owner holder.name))
  | none =>
    if !b.multiple && bs.any (·.name == b.name) then .error (.constraint (.singleBehavior b.name owner))
    else .ok (bs ++ [b])

end Behavior

end Schemata
