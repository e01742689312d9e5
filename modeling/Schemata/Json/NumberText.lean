import Schemata.Json.Basic
import Schemata.Json.Fault

/-!
# Reading numbers

A number is an integer while it has no fraction and no exponent and fits 64 bits. Any other number is
computed from a significand of at most 64 bits: digits beyond it only move the exponent, or are
dropped behind the point.
-/

namespace Schemata.Json

def maxSignificand : Nat := Nat.pow 2 64 - 1

structure Significand where
  value : Nat
  exponent : Int
deriving DecidableEq, Repr, Inhabited

def digitValue (c : Char) : Nat :=
  c.toNat - '0'.toNat

/-- The value with one more digit, unless it grows too large. -/
def extended? (value : Nat) (c : Char) : Option Nat :=
  let v := value * 10 + digitValue c
  if v ≤ maxSignificand then some v else none

/-- The digits before the point: from the first one that does not fit on, they only count. -/
def wholeDigits (value : Nat) : List Char → Significand
  | [] => ⟨value, 0⟩
  | c :: rest =>
    match extended? value c with
    | some v => wholeDigits v rest
    | none => ⟨value, rest.length + 1⟩

/-- The digits behind the point: from the first one that does not fit on, they are dropped. -/
def fractionDigits (s : Significand) : List Char → Significand
  | [] => s
  | c :: rest =>
    match extended? s.value c with
    | some v => fractionDigits ⟨v, s.exponent - 1⟩ rest
    | none => s

/-- The greatest exponent that is still counted. -/
def maxWrittenExponent : Nat := Nat.pow 2 31 - 1

/-- The exponent of a list of digits, or how many of them lead beyond the greatest exponent. -/
def exponentDigits (value read : Nat) : List Char → Except Nat Nat
  | [] => .ok value
  | c :: rest =>
    let v := value * 10 + digitValue c
    if v ≤ maxWrittenExponent then exponentDigits v (read + 1) rest else .error (read + 1)

/-- A scanned value, the text behind it and the offset of that text. -/
structure Scanned (α : Type) where
  value : α
  rest : List Char
  offset : Nat

/-- The digits at the front of a text. -/
def scanDigits (offset : Nat) (cs : List Char) : Scanned (List Char) :=
  let digits := cs.takeWhile Char.isDigit
  ⟨digits, cs.dropWhile Char.isDigit, offset + digits.length⟩

/-- The fault where the character at the front was only looked at. -/
def peekFault (cause : FaultCause) (offset : Nat) : List Char → Fault
  | [] => ⟨cause, offset⟩
  | _ :: _ => ⟨cause, offset + 1⟩

/-- Where a digit has to stand: the end of the text and any other character are different faults. -/
def needDigit (offset : Nat) : List Char → Except Fault Unit
  | [] => .error ⟨.endInValue, offset⟩
  | c :: _ => if c.isDigit then .ok () else .error ⟨.badNumber, offset + 1⟩

/-- The double of a significand, or a fault at `offset` where it is too large. -/
def finish (negative : Bool) (s : Significand) (exponent : Int) (offset : Nat) : Except Fault Number :=
  match Double.ofDecimal? negative s.value (s.exponent + exponent) with
  | some x => .ok (.double x)
  | none => .error ⟨.numberTooLarge, offset⟩

/-- An exponent behind its letter. -/
def scanExponent (negative : Bool) (s : Significand) (offset : Nat) (cs : List Char) :
    Except Fault (Scanned Number) := do
  let (minus, offset, cs) := match cs with
    | '+' :: rest => (false, offset + 1, rest)
    | '-' :: rest => (true, offset + 1, rest)
    | _ => (false, offset, cs)
  needDigit offset cs
  let digits := scanDigits offset cs
  match exponentDigits 0 0 digits.value with
  | .ok e =>
    let n ← finish negative s (if minus then -(e : Int) else e) digits.offset
    pure ⟨n, digits.rest, digits.offset⟩
  | .error read =>
    if s.value ≠ 0 ∧ ¬minus then throw ⟨.numberTooLarge, offset + read⟩
    else pure ⟨.double (Double.zero negative), digits.rest, digits.offset⟩

/-- What may follow the last digit: an exponent or the end of the number. -/
def scanEnd (negative : Bool) (s : Significand) (offset : Nat) (cs : List Char) :
    Except Fault (Scanned Number) :=
  match cs with
  | 'e' :: rest | 'E' :: rest => scanExponent negative s (offset + 1) rest
  | _ => do pure ⟨← finish negative s 0 offset, cs, offset⟩

/-- The integer of a significand that nothing follows; minus zero and whatever does not fit 64 bits
    with its sign is a double. -/
def integer (negative : Bool) (s : Significand) (offset : Nat) : Except Fault Number :=
  if s.exponent ≠ 0 then finish negative s 0 offset
  else if ¬negative then .ok (.int s.value)
  else if s.value = 0 ∨ Nat.pow 2 63 < s.value then finish negative s 0 offset
  else .ok (.int (-(s.value : Int)))

/-- A number behind its sign. -/
def scanUnsigned (negative : Bool) (offset : Nat) (cs : List Char) : Except Fault (Scanned Number) := do
  needDigit offset cs
  let whole := scanDigits offset cs
  match whole.value with
  | '0' :: _ :: _ => throw ⟨.badNumber, offset + 2⟩
  | _ =>
    let s := wholeDigits 0 whole.value
    match whole.rest with
    | '.' :: rest =>
      let fraction := scanDigits (whole.offset + 1) rest
      if fraction.value.isEmpty then
        throw (peekFault (if rest.isEmpty then .endInValue else .badNumber) fraction.offset rest)
      else scanEnd negative (fractionDigits s fraction.value) fraction.offset fraction.rest
    | 'e' :: _ | 'E' :: _ => scanEnd negative s whole.offset whole.rest
    | _ => do pure ⟨← integer negative s whole.offset, whole.rest, whole.offset⟩

def scanNumber (offset : Nat) : List Char → Except Fault (Scanned Number)
  | '-' :: rest => scanUnsigned true (offset + 1) rest
  | cs => scanUnsigned false offset cs

end Schemata.Json
