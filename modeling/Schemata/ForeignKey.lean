import Schemata.Text.Blank
import Schemata.Vendor

/-!
# Foreign keys

A foreign key pairs columns of its table with columns of another one, which it knows by name only. A
key without pairs is implicit: finalization gives it one pair for each column of the foreign primary
key.
-/

namespace Schemata

/-- What happens to a row when the row it refers to changes. -/
inductive ReferentialAction where
  | none
  | cascade
  | setNull
  | restrict
  | noAction
  | setDefault
deriving DecidableEq, Repr, Inhabited

namespace ReferentialAction

/-- The action that a text names; case, blanks and underscores do not matter. -/
def ofText? (s : String) : Option ReferentialAction :=
  let kept := s.toList.filter fun c => !Text.isBlank c && c != '_'
  match Text.lower (String.ofList kept) with
  | "" | "none" => some .none
  | "cascade" => some .cascade
  | "setnull" => some .setNull
  | "restrict" => some .restrict
  | "noaction" => some .noAction
  | "setdefault" => some .setDefault
  | _ => Option.none

def sql? : ReferentialAction → Option String
  | .none => Option.none
  | .cascade => some "CASCADE"
  | .setNull => some "SET NULL"
  | .restrict => some "RESTRICT"
  | .noAction => some "NO ACTION"
  | .setDefault => some "SET DEFAULT"

end ReferentialAction

/-- The identity of a foreign key: the table that owns it and its name there. -/
structure KeyId where
  table : String
  name : String
deriving DecidableEq, Repr, Inhabited

def KeyId.text (k : KeyId) : String :=
  k.table ++ "." ++ k.name

structure Reference where
  localColumn : String
  foreignColumn : String
deriving DecidableEq, Repr, Inhabited

structure ForeignKey where
  name : String
  /-- The name of the foreign table, qualified or not. -/
  target : String
  targetSchema : Option String := none
  /-- The name of the relation in generated code. -/
  codeName : Option String := none
  reverseCodeName : Option String := none
  onDelete : ReferentialAction := .none
  onUpdate : ReferentialAction := .none
  skipSql : Bool := false
  defaultJoin : Option String := none
  vendor : List Vendor := []
  references : List Reference := []
  table : String := ""
deriving DecidableEq, Repr, Inhabited

namespace ForeignKey

/-- Whether the key was declared without pairs. -/
def isImplicit (k : ForeignKey) : Bool :=
  k.references.isEmpty

def localColumns (k : ForeignKey) : List String :=
  k.references.map (·.localColumn)

def foreignColumns (k : ForeignKey) : List String :=
  k.references.map (·.foreignColumn)

def id (k : ForeignKey) : KeyId :=
  ⟨k.table, k.name⟩

end ForeignKey

end Schemata
