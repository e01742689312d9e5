import Schemata.Text.CaseTable
import Schemata.Text.CasedTable

/-!
# Upper and lower case

Full case forms: a character may change into several (`ß` into `SS`). A capital sigma takes its final
form at the end of a word: a cased character stands before it and none after it, looking through the
characters that a case context ignores.
-/

namespace Schemata.Text

/-- The case form of a character outside ASCII by the table of sequences, else by the runs. -/
def caseForm (sequences : List (Nat × List Nat)) (runs : List CaseRun) (c : Char) : List Char :=
  match sequences.lookup c.toNat with
  | some codes => codes.map Char.ofNat
  | none =>
    match runs.findSome? (·.map? c.toNat) with
    | some code => [Char.ofNat code]
    | none => [c]

def lowerChar (c : Char) : List Char :=
  if c.toNat < 0x80 then [c.toLower] else caseForm lowerSequences lowerRuns c

def upperChar (c : Char) : List Char :=
  if c.toNat < 0x80 then [c.toUpper] else caseForm upperSequences upperRuns c

/-- Whether the first character that a case context does not ignore is cased. -/
def meetsCased (cs : List Char) : Bool :=
  match cs.dropWhile caseIgnorableRanges.contains with
  | c :: _ => casedRanges.contains c
  | [] => false

/-- Lower case of the rest of a text, where `before` is what precedes it, nearest first. -/
def lowerAfter (before : List Char) : List Char → List Char
  | [] => []
  | c :: rest =>
    (if c = 'Σ' then [if meetsCased before && !meetsCased rest then 'ς' else 'σ'] else lowerChar c)
      ++ lowerAfter (c :: before) rest

def lowerChars (cs : List Char) : List Char :=
  lowerAfter [] cs

def upperChars (cs : List Char) : List Char :=
  cs.flatMap upperChar

def lower (s : String) : String :=
  String.ofList (lowerChars s.toList)

def upper (s : String) : String :=
  String.ofList (upperChars s.toList)

/-- The string with its first character in upper case. -/
def upperFirst (s : String) : String :=
  match s.toList with
  | [] => ""
  | c :: rest => String.ofList (upperChar c ++ rest)

/-- The string with its first character in lower case. -/
def lowerFirst (s : String) : String :=
  match s.toList with
  | [] => ""
  | c :: rest => String.ofList (lowerChar c ++ rest)

/-- Equality that ignores the case of ASCII letters only. -/
def sameIgnoringAsciiCase (s t : String) : Bool :=
  s.toList.map Char.toLower == t.toList.map Char.toLower

end Schemata.Text
