import Schemata.Behavior
import Schemata.Json.Basic

/-!
# Templates

The steps of a script may name the table that its hook runs on and the parameters of its behavior. The
places are filled in before a step is read, in all texts of the step.
-/

namespace Schemata.Script

/-- The text with each occurrence of `pattern` replaced, from the left; the first `skip` characters
    belong to an occurrence already. -/
def replacedFrom (pattern new : List Char) : Nat → List Char → List Char
  | _, [] => []
  | skip + 1, _ :: rest => replacedFrom pattern new skip rest
  | 0, c :: rest =>
    if pattern.isPrefixOf (c :: rest) then new ++ replacedFrom pattern new (pattern.length - 1) rest
    else c :: replacedFrom pattern new 0 rest

/-- The text with each occurrence of a pattern that is not empty replaced. -/
def replaced (pattern new s : String) : String :=
  String.ofList (replacedFrom pattern.toList new.toList 0 s.toList)

mutual

/-- A value with each of its texts changed; keys stay. -/
def mapTexts (f : String → String) : Json → Json
  | .null => .null
  | .bool b => .bool b
  | .num n => .num n
  | .str s => .str (f s)
  | .arr items => .arr (mapItemTexts f items)
  | .obj members => .obj (mapMemberTexts f members)

def mapItemTexts (f : String → String) : List Json → List Json
  | [] => []
  | j :: rest => mapTexts f j :: mapItemTexts f rest

def mapMemberTexts (f : String → String) : List (String × Json) → List (String × Json)
  | [] => []
  | (key, j) :: rest => (key, mapTexts f j) :: mapMemberTexts f rest

end

def filledText (b : Behavior) (table : String) (s : String) : String :=
  b.parameters.entries.foldl (fun s p => replaced ("\x7bp:" ++ p.1 ++ "\x7d") p.2 s)
    (replaced "\x7btable\x7d" table s)

/-- A step with the table and the parameters of the behavior filled in. -/
def filled (b : Behavior) (table : String) (step : Json) : Json :=
  mapTexts (filledText b table) step

end Schemata.Script
