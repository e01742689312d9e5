import Schemata.Json.Lexeme

/-!
# Reading JSON

The reader walks over the lexemes once, with a stack of the arrays and objects that are open. At most
127 of them may be open at a time. The first fault in the order of the text is reported.
-/

namespace Schemata.Json

/-- An open container with what it holds so far: the items of an array, last first, or the members
    of an object with the key of the next one. -/
inductive Frame where
  | list (done : List Json)
  | object (done : List (String × Json)) (key : String)

/-- What the reader waits for. -/
inductive Awaited where
  | value
  /-- Right behind an opening bracket: an item or the end. -/
  | firstItem
  /-- Behind a comma of an array. -/
  | nextItem
  /-- Right behind an opening brace: a key or the end. -/
  | firstKey
  /-- Behind a comma of an object. -/
  | nextKey
  | colon
  /-- Behind an item: a comma or the end of the array. -/
  | itemEnd
  /-- Behind a member: a comma or the end of the object. -/
  | memberEnd
  /-- Behind the whole value: nothing. -/
  | nothing (value : Json)

def maxDepth : Nat := 127

/-- What follows a complete value. -/
def afterValue (v : Json) : List Frame → Awaited × List Frame
  | [] => (.nothing v, [])
  | .list done :: stack => (.itemEnd, .list (v :: done) :: stack)
  | .object done key :: stack => (.memberEnd, .object (setMember done key v) "" :: stack)

/-- What follows the end of the innermost container. -/
def closed : List Frame → Awaited × List Frame
  | [] => (.value, [])
  | .list done :: stack => afterValue (.arr done.reverse) stack
  | .object done _ :: stack => afterValue (.obj done) stack

/-- The innermost container, an object, with the key of its next member. -/
def withKey (key : String) : List Frame → List Frame
  | .object done _ :: stack => .object done key :: stack
  | stack => stack

/-- The cause when the text ends while something is awaited. -/
def endCause : Awaited → FaultCause
  | .firstItem | .itemEnd => .endInList
  | .firstKey | .colon | .memberEnd => .endInObject
  | .value | .nextItem | .nextKey | .nothing _ => .endInValue

/-- A value or the start of one, where a value may stand. -/
def startValue (stack : List Frame) (l : Lexeme) : Except Fault (Awaited × List Frame) :=
  match l.token with
  | .scalar v => .ok (afterValue v stack)
  | .text s => .ok (afterValue (.str s) stack)
  | .broken _ f => .error f
  | .mark c =>
    if c = '[' ∨ c = '\x7b' then
      if maxDepth ≤ stack.length then .error ⟨.tooDeep, l.start + 1⟩
      else if c = '[' then .ok (.firstItem, .list [] :: stack)
      else .ok (.firstKey, .object [] "" :: stack)
    else .error ⟨.noValue, l.start + 1⟩

/-- The key of a member, where one must stand. -/
def startKey (stack : List Frame) (l : Lexeme) : Except Fault (Awaited × List Frame) :=
  match l.token with
  | .text s => .ok (.colon, withKey s stack)
  | .broken true f => .error f
  | _ => .error ⟨.keyNotString, l.start + 1⟩

def Lexeme.isMark (l : Lexeme) (c : Char) : Bool :=
  match l.token with
  | .mark d => d == c
  | _ => false

def step (awaited : Awaited) (stack : List Frame) (l : Lexeme) : Except Fault (Awaited × List Frame) :=
  match awaited with
  | .value => startValue stack l
  | .firstItem => if l.isMark ']' then .ok (closed stack) else startValue stack l
  | .nextItem => if l.isMark ']' then .error ⟨.trailingComma, l.start + 1⟩ else startValue stack l
  | .itemEnd =>
    if l.isMark ',' then .ok (.nextItem, stack)
    else if l.isMark ']' then .ok (closed stack)
    else .error ⟨.listCommaOrEnd, l.start + 1⟩
  | .firstKey => if l.isMark '\x7d' then .ok (closed stack) else startKey stack l
  | .nextKey => if l.isMark '\x7d' then .error ⟨.trailingComma, l.start + 1⟩ else startKey stack l
  | .colon => if l.isMark ':' then .ok (.value, stack) else .error ⟨.missingColon, l.start + 1⟩
  | .memberEnd =>
    if l.isMark ',' then .ok (.nextKey, stack)
    else if l.isMark '\x7d' then .ok (closed stack)
    else .error ⟨.objectCommaOrEnd, l.start + 1⟩
  | .nothing _ => .error ⟨.trailingText, l.start + 1⟩

/-- Reads the rest of the lexemes of a text that is `size` bytes long. -/
def readFrom (size : Nat) (awaited : Awaited) (stack : List Frame) : List Lexeme → Except Fault Json
  | [] =>
    match awaited with
    | .nothing v => .ok v
    | _ => .error ⟨endCause awaited, size⟩
  | l :: rest =>
    match step awaited stack l with
    | .ok (awaited, stack) => readFrom size awaited stack rest
    | .error f => .error f

def read (text : String) : Except SyntaxError Json :=
  let cs := text.toList
  match readFrom text.utf8ByteSize .value [] (lexemes cs) with
  | .ok v => .ok v
  | .error f => .error (f.located cs)

end Schemata.Json
