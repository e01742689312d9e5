import Schemata.Json.StringText

/-!
# Writing JSON

The compact form: no blanks, members in their order, numbers in their shortest text.
-/

namespace Schemata.Json

mutual

/-- The compact text of a value. -/
def written : Json → List Char
  | .null => "null".toList
  | .bool b => (if b then "true" else "false").toList
  | .num n => n.text.toList
  | .str s => writtenString s
  | .arr items => '[' :: writtenItems items
  | .obj members => '\x7b' :: writtenMembers members

def writtenItems : List Json → List Char
  | [] => [']']
  | [j] => written j ++ [']']
  | j :: k :: rest => written j ++ ',' :: writtenItems (k :: rest)

def writtenMembers : List (String × Json) → List Char
  | [] => ['\x7d']
  | [m] => writtenString m.1 ++ ':' :: written m.2 ++ ['\x7d']
  | m :: n :: rest => writtenString m.1 ++ ':' :: written m.2 ++ ',' :: writtenMembers (n :: rest)

end

def render (j : Json) : String :=
  String.ofList j.written

end Schemata.Json
