import Schemata.Json.Basic
import Schemata.Text.Quoted

/-!
# Shapes of JSON values

A value is read as a record, a list or a scalar, and the first problem in the order of the text is
reported. A record is written as an object, or as an array of its fields in their declared order;
fields that the kind does not declare are skipped.
-/

namespace Schemata

inductive Found where
  | null
  | boolean (b : Bool)
  | integer (n : Int)
  | float (x : Double)
  | text (s : String)
  | sequence
  | map
deriving DecidableEq, Repr, Inhabited

def Json.found : Json → Found
  | .null => .null
  | .bool b => .boolean b
  | .num (.int n) => .integer n
  | .num (.double x) => .float x
  | .str s => .text s
  | .arr _ => .sequence
  | .obj _ => .map

def Found.message : Found → String
  | .null => "null"
  | .boolean b => s!"boolean `{b}`"
  | .integer n => s!"integer `{n}`"
  | .float x => "floating point `" ++ x.text ++ "`"
  | .text s => "string " ++ Text.quoted s
  | .sequence => "sequence"
  | .map => "map"

/-- Why a value does not have a shape. -/
inductive ShapeError where
  | wrongType (found : Found) (expected : String)
  | wrongValue (n : Int) (expected : String)
  | missingField (name : String)
  | duplicateField (name : String)
  /-- An array ends before a field that has no default. -/
  | shortArray (length : Nat) (record : String) (fields : Nat)
  /-- An array has more items than the record has fields. -/
  | longArray (length : Nat)
  /-- None of several shapes fits. -/
  | noVariant (name : String)
  | unknownPlatform (name : String)
deriving DecidableEq, Repr, Inhabited

def ShapeError.message : ShapeError → String
  | .wrongType found expected => "invalid type: " ++ found.message ++ ", expected " ++ expected
  | .wrongValue n expected => s!"invalid value: integer `{n}`, expected {expected}"
  | .missingField name => s!"missing field `{name}`"
  | .duplicateField name => s!"duplicate field `{name}`"
  | .shortArray length record fields =>
    s!"invalid length {length}, expected struct {record} with {fields} element"
      ++ (if fields = 1 then "" else "s")
  | .longArray length => s!"invalid length {length}, expected fewer elements in array"
  | .noVariant name => s!"data did not match any variant of untagged enum {name}"
  | .unknownPlatform name => s!"unknown platform '{name}'"

abbrev Shape (α : Type) : Type := Json → Except ShapeError α

namespace Shape

def any : Shape Json := .ok

def text : Shape String
  | .str s => .ok s
  | j => .error (.wrongType j.found "a string")

def flag : Shape Bool
  | .bool b => .ok b
  | j => .error (.wrongType j.found "a boolean")

def word32 : Shape Nat
  | .num (.int n) =>
    if 0 ≤ n ∧ n < Nat.pow 2 32 then .ok n.toNat else .error (.wrongValue n "u32")
  | j => .error (.wrongType j.found "u32")

def members : Shape (List (String × Json))
  | .obj ms => .ok ms
  | j => .error (.wrongType j.found "a map")

def nullable {α : Type} (s : Shape α) : Shape (Option α)
  | .null => .ok none
  | j => (s j).map some

def list {α : Type} (s : Shape α) : Shape (List α)
  | .arr items => items.mapM s
  | j => .error (.wrongType j.found "a sequence")

/-- The first of two shapes that fits; when neither does, the error names them together. -/
def either {α : Type} (name : String) (first second : Shape α) : Shape α := fun j =>
  match first j with
  | .ok a => .ok a
  | .error _ =>
    match second j with
    | .ok a => .ok a
    | .error _ => .error (.noVariant name)

/-- One value of a shape, or an array of them. -/
def oneOrMany {α : Type} (s : Shape α) : Shape (List α) :=
  either "OneOrMany" (fun j => (s j).map fun a => [a]) (list s)

end Shape

/-! ### Records -/

structure RecordField where
  name : String
  /-- A second spelling of the name. -/
  spelling : Option String
  /-- Whether the field has no default. -/
  required : Bool

def RecordField.needed (name : String) : RecordField := ⟨name, none, true⟩

def RecordField.defaulted (name : String) : RecordField := ⟨name, none, false⟩

/-- A kind of record: its fields in order, the record of defaults, and how a field is put into it. -/
structure RecordKind (α : Type) where
  name : String
  fields : List RecordField
  blank : α
  put : String → Json → α → Except ShapeError α

namespace RecordKind

variable {α : Type}

/-- The declared name behind the spelling of a key, if the kind knows it. -/
def fieldName? (k : RecordKind α) (key : String) : Option String :=
  (k.fields.find? fun f => f.name = key || f.spelling = some key).map (·.name)

/-- Puts the members of an object into the record, in their order. `seen` are the fields put so far. -/
def putMembers (k : RecordKind α) (a : α) (seen : List String) :
    List (String × Json) → Except ShapeError (α × List String)
  | [] => .ok (a, seen)
  | m :: rest =>
    match k.fieldName? m.1 with
    | none => putMembers k a seen rest
    | some name =>
      if seen.contains name then .error (.duplicateField name)
      else do putMembers k (← k.put name m.2 a) (name :: seen) rest

def ofMembers (k : RecordKind α) (ms : List (String × Json)) : Except ShapeError α := do
  let (a, seen) ← k.putMembers k.blank [] ms
  match k.fields.find? fun f => f.required && !seen.contains f.name with
  | some f => throw (.missingField f.name)
  | none => pure a

/-- Puts the items of an array into the record by position, counted from `pos`. Fields beyond the last
    item keep their defaults; the first one without a default is an error. -/
def putItems (k : RecordKind α) (a : α) (pos : Nat) : List RecordField → List Json → Except ShapeError α
  | [], _ => .ok a
  | f :: fields, [] =>
    if f.required then .error (.shortArray pos k.name k.fields.length)
    else putItems k a (pos + 1) fields []
  | f :: fields, j :: items => do putItems k (← k.put f.name j a) (pos + 1) fields items

def ofItems (k : RecordKind α) (items : List Json) : Except ShapeError α := do
  let a ← k.putItems k.blank 0 k.fields items
  if k.fields.length < items.length then throw (.longArray items.length) else pure a

def shape (k : RecordKind α) : Shape α
  | .obj ms => k.ofMembers ms
  | .arr items => k.ofItems items
  | j => .error (.wrongType j.found ("struct " ++ k.name))

/-- The shape of a record that may not be written as an array. -/
def objectShape (k : RecordKind α) : Shape α
  | .obj ms => k.ofMembers ms
  | j => .error (.wrongType j.found ("struct " ++ k.name))

end RecordKind

end Schemata
