import Schemata.Json.StringText

/-!
# Lexemes of JSON

A text is cut into brackets, commas, colons and scalars, each with the byte offset where it starts. A
scalar that breaks off is kept with its fault and ends the list: whether the fault is reported depends
on whether a scalar may stand there at all.
-/

namespace Schemata.Json

inductive Token where
  /-- A bracket, a comma, a colon or a character that begins nothing. -/
  | mark (c : Char)
  | scalar (value : Json)
  | text (s : String)
  | broken (isText : Bool) (fault : Fault)
deriving Repr, Inhabited

/-- A token with the offset of its first byte. -/
structure Lexeme where
  start : Nat
  token : Token
deriving Repr, Inhabited

def isGap (c : Char) : Bool :=
  c == ' ' || c == '\n' || c == '\t' || c == '\r'

/-- The rest of a word such as `null`, of which the first letter is read. -/
def scanWord (value : Json) (offset : Nat) : List Char → List Char → Except Fault (Scanned Json)
  | [], cs => .ok ⟨value, cs, offset⟩
  | _ :: _, [] => .error ⟨.endInValue, offset⟩
  | w :: word, c :: cs =>
    if c = w then scanWord value (offset + 1) word cs else .error ⟨.brokenWord, offset + 1⟩

/-- The token at the front of a text that begins with `c`. -/
def scanToken (offset : Nat) (c : Char) (rest : List Char) : Scanned Token :=
  let scalar (r : Except Fault (Scanned Json)) : Scanned Token :=
    match r with
    | .ok v => ⟨.scalar v.value, v.rest, v.offset⟩
    | .error f => ⟨.broken false f, [], offset⟩
  match c with
  | 'n' => scalar (scanWord .null (offset + 1) ['u', 'l', 'l'] rest)
  | 't' => scalar (scanWord (.bool true) (offset + 1) ['r', 'u', 'e'] rest)
  | 'f' => scalar (scanWord (.bool false) (offset + 1) ['a', 'l', 's', 'e'] rest)
  | '"' =>
    match scanString (offset + 1) rest with
    | .ok s => ⟨.text s.value, s.rest, s.offset⟩
    | .error f => ⟨.broken true f, [], offset⟩
  | _ =>
    if c = '-' ∨ c.isDigit then
      scalar ((scanNumber offset (c :: rest)).map fun n => ⟨.num n.value, n.rest, n.offset⟩)
    else ⟨.mark c, rest, offset + c.utf8Size⟩

/-- The lexemes of the rest of a text. Each takes at least one character, so the length of the text
    is fuel enough. -/
def lexemesFrom (offset : Nat) : Nat → List Char → List Lexeme
  | 0, _ => []
  | _ + 1, [] => []
  | fuel + 1, c :: rest =>
    if isGap c then lexemesFrom (offset + 1) fuel rest
    else
      let t := scanToken offset c rest
      ⟨offset, t.value⟩ :: lexemesFrom t.offset fuel t.rest

def lexemes (cs : List Char) : List Lexeme :=
  lexemesFrom 0 cs.length cs

end Schemata.Json
