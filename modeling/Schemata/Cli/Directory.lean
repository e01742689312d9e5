import Schemata.FileFault
import Schemata.Path

/-!
# Directories

A directory with files below it, as the command line sees it when it is started there. Directories
exist by the files that they hold. A path is followed piece by piece: every piece but the last must
lead to a directory.
-/

namespace Schemata

structure Directory where
  files : List (List String × String) := []

namespace Directory

inductive Node where
  | file (content : String)
  | directory

/-- The most bytes of a path, and the most bytes of a piece of one. -/
def maxPath : Nat := 4095
def maxPiece : Nat := 255

/-- The pieces of a path that are names or pairs of dots. -/
def namedPieces (p : String) : List String :=
  ((Path.pieces p.toList).filter (!Path.isTrivial ·)).map String.ofList

/-- The directory of a list of files. A later file replaces an earlier one of its path. -/
def ofFiles (files : List (String × String)) : Directory :=
  ⟨files.map fun f => (namedPieces f.1, f.2)⟩

def at? (d : Directory) (place : List String) : Option Node :=
  match (d.files.filter (·.1 == place)).getLast? with
  | some f => some (.file f.2)
  | none => if place.isEmpty || d.files.any fun f => place.isPrefixOf f.1 then some .directory else none

inductive Spot where
  /-- Below the directory, with the innermost name first. -/
  | below (place : List String)
  /-- At a directory around it, of which nothing else is known. -/
  | around
deriving DecidableEq, Repr, Inhabited

/-- Follows pieces from a spot. -/
def follow (d : Directory) (spot : Spot) : List String → Except FileFault Spot
  | [] => .ok spot
  | piece :: rest =>
    if maxPiece < piece.utf8ByteSize then .error .nameTooLong
    else if piece = "" || piece = "." then follow d spot rest
    else
      match spot with
      | .around => if piece = ".." then follow d .around rest else .error .notFound
      | .below place =>
        if piece = ".." then follow d (if place.isEmpty then .around else .below (place.drop 1)) rest
        else
          match d.at? (piece :: place).reverse with
          | none => .error .notFound
          | some .directory => follow d (.below (piece :: place)) rest
          | some (.file _) =>
            if rest.isEmpty then .ok (.below (piece :: place)) else .error .notDirectory

/-- The pieces of a path and the spot where following them starts. -/
def start (p : String) : Except FileFault (Spot × List String) :=
  if p.toList.contains '\x00' then .error .zeroInName
  else if p = "" then .error .notFound
  else if maxPath < p.utf8ByteSize then .error .nameTooLong
  else
    .ok (if (Path.mk p).isAbsolute then .around else .below [], (Path.pieces p.toList).map String.ofList)

def read (d : Directory) (p : String) : Except FileFault String := do
  let (spot, pieces) ← start p
  match ← d.follow spot pieces with
  | .around => throw .isDirectory
  | .below place =>
    match d.at? place.reverse with
    | some (.file content) => pure content
    | some .directory => throw .isDirectory
    | none => throw .notFound

def put (d : Directory) (holder : List String) (name content : String) : Except FileFault Directory :=
  if maxPiece < name.utf8ByteSize then .error .nameTooLong
  else
    let place := holder ++ [name]
    match d.at? place with
    | some .directory => .error .isDirectory
    | _ => .ok ⟨d.files.filter (·.1 != place) ++ [(place, content)]⟩

/-- Whether pieces that end in `name` can lead to a file: neither a slash nor dots are at their end. -/
def canBeFile (name : String) (pieces : List String) : Bool :=
  pieces.getLast? == some name && name != "." && name != ".."

/-- The directory with a file written: the file exists afterwards, the directory that holds it must
    exist before and be known. -/
def write (d : Directory) (p content : String) : Except FileFault Directory := do
  let (spot, pieces) ← start p
  match pieces.reverse.dropWhile (· == "") with
  | [] => throw .isDirectory
  | name :: before =>
    match ← d.follow spot before.reverse with
    | .around => throw (if canBeFile name pieces then .notFound else .isDirectory)
    | .below place =>
      match d.at? place.reverse with
      | some .directory =>
        if canBeFile name pieces then d.put place.reverse name content else throw .isDirectory
      | _ => throw .notDirectory

end Directory

end Schemata
