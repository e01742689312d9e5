import Schemata.Json.Double

/-!
# JSON values

Objects keep their members in the order of first appearance. A number is an integer where it is
written as one and fits 64 bits, with or without a sign; every other number is a binary double.
-/

namespace Schemata

inductive Number where
  | int (n : Int)
  | double (x : Double)
deriving DecidableEq, Repr, Inhabited

def Number.text : Number → String
  | .int n => toString n
  | .double x => x.text

inductive Json where
  | null
  | bool (b : Bool)
  | num (n : Number)
  | str (s : String)
  | arr (items : List Json)
  | obj (members : List (String × Json))
deriving Repr, Inhabited

namespace Json

/-- Members with `key` set to `value`: a key that is there keeps its place. -/
def setMember (members : List (String × Json)) (key : String) (value : Json) : List (String × Json) :=
  match members with
  | [] => [(key, value)]
  | m :: rest => if m.1 = key then (key, value) :: rest else m :: setMember rest key value

def member? : Json → String → Option Json
  | .obj members, key => members.lookup key
  | _, _ => none

/-- The member of an object, where an absent and a null member are the same. -/
def get? (j : Json) (key : String) : Option Json :=
  match j.member? key with
  | some .null => none
  | found => found

/-- A scalar as the text that a model stores. Null and the containers have none. -/
def scalarText? : Json → Option String
  | .str s => some s
  | .bool true => some "true"
  | .bool false => some "false"
  | .num n => some n.text
  | .null | .arr _ | .obj _ => none

end Json

end Schemata
