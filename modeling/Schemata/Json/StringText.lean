import Schemata.Json.NumberText

/-!
# Reading and writing strings

A string stands between double quotes. A backslash escapes a quote, a backslash, a slash, the usual
control characters and any code unit of sixteen bits; two escaped surrogates make one character, and
a surrogate alone is a fault. Offsets count bytes.
-/

namespace Schemata.Json

def bytesUpTo (limit : Nat) : List Char → Nat
  | [] => 0
  | c :: rest => if limit ≤ c.utf8Size then limit else c.utf8Size + bytesUpTo (limit - c.utf8Size) rest

def hexValue? (c : Char) : Option Nat :=
  if c.isDigit then some (digitValue c)
  else if 'a' ≤ c ∧ c ≤ 'f' then some (c.toNat - 'a'.toNat + 10)
  else if 'A' ≤ c ∧ c ≤ 'F' then some (c.toNat - 'A'.toNat + 10)
  else none

/-- Four hexadecimal digits. A text of fewer than four bytes has ended too early. -/
def scanUnit (offset : Nat) (cs : List Char) : Except Fault (Scanned Nat) :=
  match cs with
  | a :: b :: c :: d :: rest =>
    match hexValue? a, hexValue? b, hexValue? c, hexValue? d with
    | some a, some b, some c, some d => .ok ⟨((a * 16 + b) * 16 + c) * 16 + d, rest, offset + 4⟩
    | _, _, _, _ => .error ⟨.badEscape, offset + 4⟩
  | _ =>
    if bytesUpTo 4 cs < 4 then .error ⟨.endInString, offset + bytesUpTo 4 cs⟩
    else .error ⟨.badEscape, offset + 4⟩

/-- A character that must come next inside an escaped pair. -/
def needInPair (c : Char) (offset : Nat) : List Char → Except Fault (Scanned Unit)
  | [] => .error ⟨.endInString, offset⟩
  | d :: rest => if d = c then .ok ⟨(), rest, offset + 1⟩ else .error ⟨.halfPair, offset + 1⟩

/-- The character of a numeric escape behind its `u`. -/
def scanCodeEscape (offset : Nat) (cs : List Char) : Except Fault (Scanned Char) := do
  let first ← scanUnit offset cs
  if 0xDC00 ≤ first.value ∧ first.value ≤ 0xDFFF then throw ⟨.loneSurrogate, first.offset⟩
  else if first.value < 0xD800 ∨ 0xDBFF < first.value then
    pure ⟨Char.ofNat first.value, first.rest, first.offset⟩
  else
    let slash ← needInPair '\\' first.offset first.rest
    let letter ← needInPair 'u' slash.offset slash.rest
    let second ← scanUnit letter.offset letter.rest
    if second.value < 0xDC00 ∨ 0xDFFF < second.value then throw ⟨.loneSurrogate, second.offset⟩
    else
      let code := (first.value - 0xD800) * 0x400 + (second.value - 0xDC00) + 0x10000
      pure ⟨Char.ofNat code, second.rest, second.offset⟩

/-- The character of an escape behind its backslash. -/
def scanEscape (offset : Nat) : List Char → Except Fault (Scanned Char)
  | [] => .error ⟨.endInString, offset⟩
  | c :: rest =>
    match c with
    | '"' => .ok ⟨'"', rest, offset + 1⟩
    | '\\' => .ok ⟨'\\', rest, offset + 1⟩
    | '/' => .ok ⟨'/', rest, offset + 1⟩
    | 'b' => .ok ⟨'\x08', rest, offset + 1⟩
    | 'f' => .ok ⟨'\x0c', rest, offset + 1⟩
    | 'n' => .ok ⟨'\n', rest, offset + 1⟩
    | 'r' => .ok ⟨'\r', rest, offset + 1⟩
    | 't' => .ok ⟨'\t', rest, offset + 1⟩
    | 'u' => scanCodeEscape (offset + 1) rest
    | _ => .error ⟨.badEscape, offset + 1⟩

/-- The rest of a string behind its opening quote, where `done` holds what was read, last first. Each
    round takes at least one character, so the length of the text is fuel enough. -/
def scanStringFrom (done : List Char) (offset : Nat) : Nat → List Char → Except Fault (Scanned String)
  | 0, _ => .error ⟨.endInString, offset⟩
  | _ + 1, [] => .error ⟨.endInString, offset⟩
  | fuel + 1, c :: rest =>
    if c = '"' then .ok ⟨String.ofList done.reverse, rest, offset + 1⟩
    else if c = '\\' then
      match scanEscape (offset + 1) rest with
      | .ok e => scanStringFrom (e.value :: done) e.offset fuel e.rest
      | .error f => .error f
    else if c.toNat < 0x20 then .error ⟨.controlCharacter, offset + 1⟩
    else scanStringFrom (c :: done) (offset + c.utf8Size) fuel rest

def scanString (offset : Nat) (cs : List Char) : Except Fault (Scanned String) :=
  scanStringFrom [] offset (cs.length + 1) cs

/-- The four hexadecimal digits of a control character. -/
def controlEscape (c : Char) : List Char :=
  let digit (n : Nat) := "0123456789abcdef".toList.getD n '0'
  ['\\', 'u', '0', '0', digit (c.toNat / 16), digit (c.toNat % 16)]

def writtenChar (c : Char) : List Char :=
  if c = '"' then ['\\', '"']
  else if c = '\\' then ['\\', '\\']
  else if c = '\x08' then ['\\', 'b']
  else if c = '\x0c' then ['\\', 'f']
  else if c = '\n' then ['\\', 'n']
  else if c = '\r' then ['\\', 'r']
  else if c = '\t' then ['\\', 't']
  else if c.toNat < 0x20 then controlEscape c
  else [c]

def writtenString (s : String) : List Char :=
  '"' :: s.toList.flatMap writtenChar ++ ['"']

end Schemata.Json
