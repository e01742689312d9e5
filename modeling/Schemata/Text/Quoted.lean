import Schemata.Text.ExtendTable
import Schemata.Text.UnprintableTable

/-!
# Quoted text

Text as an error message or a log line shows it: between double quotes, with the quote, the backslash
and everything that cannot be printed on its own escaped.
-/

namespace Schemata.Text

def hexDigit (n : Nat) : Char :=
  "0123456789abcdef".toList.getD n '0'

def hexDigits (n : Nat) : List Char :=
  if n < 16 then [hexDigit n] else hexDigits (n / 16) ++ [hexDigit (n % 16)]

/-- Whether a character is shown as it is: it has a printed form and attaches to nothing. -/
def isPrintable (c : Char) : Bool :=
  if c.toNat < 0x7F then 0x20 ≤ c.toNat else !extendRanges.contains c && !unprintableRanges.contains c

def codeEscape (c : Char) : List Char :=
  ['\\', 'u', '\x7b'] ++ hexDigits c.toNat ++ ['\x7d']

def quotedChar (c : Char) : List Char :=
  if c = '"' then ['\\', '"']
  else if c = '\\' then ['\\', '\\']
  else if c = '\n' then ['\\', 'n']
  else if c = '\r' then ['\\', 'r']
  else if c = '\t' then ['\\', 't']
  else if c.toNat = 0 then ['\\', '0']
  else if isPrintable c then [c]
  else codeEscape c

def quoted (s : String) : String :=
  String.ofList (['"'] ++ s.toList.flatMap quotedChar ++ ['"'])

def quotedList (names : List String) : String :=
  "[" ++ ", ".intercalate (names.map quoted) ++ "]"

end Schemata.Text
