/-!
# Paths

A path is a text with slashes. Two paths are the same file to the include rules when their components
are equal: repeated slashes, a slash at the end and a dot inside are not components, a dot at the
front and every pair of dots are. What is printed is always the text as it was given.
-/

namespace Schemata

/-- A path as it is written. -/
structure Path where
  text : String
deriving DecidableEq, Repr, Inhabited

/-- A step of a path. -/
inductive Component where
  | root
  | here
  | up
  | name (s : String)
deriving DecidableEq, Repr

namespace Path

def piecesAfter (piece : List Char) : List Char → List (List Char)
  | [] => [piece.reverse]
  | c :: rest => if c = '/' then piece.reverse :: piecesAfter [] rest else piecesAfter (c :: piece) rest

/-- The pieces of a text between slashes; a text without a slash is one piece. -/
def pieces (cs : List Char) : List (List Char) :=
  piecesAfter [] cs

def isAbsolute (p : Path) : Bool :=
  p.text.toList.head? == some '/'

/-- Whether the path starts with a dot of its own. -/
def startsHere (p : Path) : Bool :=
  (pieces p.text.toList).head? == some ['.']

/-- A piece that is no component. -/
def isTrivial (piece : List Char) : Bool :=
  piece == [] || piece == ['.']

/-- The component of a piece that is not at the front. -/
def component? (piece : List Char) : Option Component :=
  if isTrivial piece then none else if piece = ['.', '.'] then some .up else some (.name (String.ofList piece))

def components (p : Path) : List Component :=
  (if p.isAbsolute then [.root] else if p.startsHere then [.here] else [])
    ++ (pieces p.text.toList).filterMap component?

def same (p q : Path) : Bool :=
  p.components == q.components

/-- The text of the root or the dot at the front, and the rest. -/
def body (p : Path) : List Char × List Char :=
  let cs := p.text.toList
  if p.isAbsolute || p.startsHere then (cs.take 1, cs.drop 1) else ([], cs)

/-- The path without its last component and without the trivial pieces before it. The root and the
    empty path have none. -/
def parent? (p : Path) : Option Path :=
  let (front, rest) := p.body
  match (pieces rest).reverse.dropWhile isTrivial with
  | [] => if p.startsHere then some ⟨""⟩ else none
  | _ :: before =>
    let kept := (before.dropWhile isTrivial).reverse
    some ⟨String.ofList (front ++ List.intercalate ['/'] kept)⟩

/-- One path behind another, with a slash between them unless the first is empty or ends in one. An
    absolute path stands alone. -/
def join (p q : Path) : Path :=
  if q.isAbsolute then q
  else
    match p.text.toList.getLast? with
    | none => q
    | some c => if c = '/' then ⟨p.text ++ q.text⟩ else ⟨p.text ++ "/" ++ q.text⟩

end Path

end Schemata
