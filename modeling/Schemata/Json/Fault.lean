/-!
# Faults in a JSON text

Where a text stops being JSON, and why. A text that ends too early is told apart from one that no
continuation can mend.
-/

namespace Schemata.Json

inductive FaultCause where
  | endInValue
  | endInList
  | endInObject
  | endInString
  | missingColon
  | listCommaOrEnd
  | objectCommaOrEnd
  | brokenWord
  | noValue
  | badEscape
  | badNumber
  | numberTooLarge
  | controlCharacter
  | keyNotString
  | loneSurrogate
  | halfPair
  | trailingComma
  | trailingText
  | tooDeep
deriving DecidableEq, Repr, Inhabited

/-- Whether the text only ended too early. -/
def FaultCause.isEnd : FaultCause → Bool
  | .endInValue | .endInList | .endInObject | .endInString => true
  | _ => false

def FaultCause.message : FaultCause → String
  | .endInValue => "EOF while parsing a value"
  | .endInList => "EOF while parsing a list"
  | .endInObject => "EOF while parsing an object"
  | .endInString => "EOF while parsing a string"
  | .missingColon => "expected `:`"
  | .listCommaOrEnd => "expected `,` or `]`"
  | .objectCommaOrEnd => "expected `,` or `\x7d`"
  | .brokenWord => "expected ident"
  | .noValue => "expected value"
  | .badEscape => "invalid escape"
  | .badNumber => "invalid number"
  | .numberTooLarge => "number out of range"
  | .controlCharacter => "control character (\\u0000-\\u001F) found while parsing a string"
  | .keyNotString => "key must be a string"
  | .loneSurrogate => "lone leading surrogate in hex escape"
  | .halfPair => "unexpected end of hex escape"
  | .trailingComma => "trailing comma"
  | .trailingText => "trailing characters"
  | .tooDeep => "recursion limit exceeded"

structure Fault where
  cause : FaultCause
  offset : Nat
deriving DecidableEq, Repr, Inhabited

/-- A cause at a line and a column of the text, both as they are shown. -/
structure SyntaxError where
  cause : FaultCause
  line : Nat
  column : Nat
deriving DecidableEq, Repr, Inhabited

/-- The line and the column in bytes that `offset` bytes of the text lead to, counted on from a line
    and a column. -/
def positionAfter (line column : Nat) : Nat → List Char → Nat × Nat
  | _, [] => (line, column)
  | offset, c :: rest =>
    if offset = 0 then (line, column)
    else if offset < c.utf8Size then (line, column + offset)
    else if c = '\n' then positionAfter (line + 1) 0 (offset - 1) rest
    else positionAfter line (column + c.utf8Size) (offset - c.utf8Size) rest

def Fault.located (f : Fault) (text : List Char) : SyntaxError :=
  let p := positionAfter 1 0 f.offset text
  { cause := f.cause, line := p.1, column := p.2 }

def SyntaxError.message (e : SyntaxError) : String :=
  e.cause.message ++ s!" at line {e.line} column {e.column}"

end Schemata.Json
