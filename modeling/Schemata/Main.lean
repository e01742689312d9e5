import Schemata.Cli

/-!
# The program

Reads the files that the arguments lead to, runs the command line on them, and shows or writes the
result.
-/

open Schemata

/-- The refusal behind an error of the system. -/
def faultOf : IO.Error → FileFault
  | .noFileOrDirectory .. => .notFound
  | .inappropriateType _ code details =>
    if code = 20 then .notDirectory else if code = 21 then .isDirectory else .other details
  | e => .other (toString e)

def readText (path : String) : IO (Except FileFault String) := do
  try
    return .ok (← IO.FS.readFile path)
  catch e =>
    return .error (faultOf e)

/-- Files by the text of their paths, with what reading them gave. -/
abbrev Snapshot : Type := List (String × Except FileFault String)

/-- Reads files and the files that they include, until every one was read once. -/
partial def readAll (known : Snapshot) : List String → IO Snapshot
  | [] => return known
  | path :: rest => do
    if known.any (·.1 == path) then readAll known rest
    else
      let content ← readText path
      let includes :=
        match content with
        | .ok text => Cli.includedFiles path text
        | .error _ => []
      readAll ((path, content) :: known) (includes ++ rest)

def Snapshot.source (known : Snapshot) : Cli.Source where
  read path := (known.lookup path).getD (.error .notFound)
  depth := known.length

def namedFiles (args : List String) : List String :=
  match Cli.readArguments args with
  | .ok o => o.input :: o.config.toList
  | .error _ => []

def programName : String := "schemata"

def main (args : List String) : IO UInt32 := do
  let known ← readAll [] (namedFiles args)
  match Cli.run known.source args with
  | .shown text =>
    IO.print text
    return 0
  | .failed f =>
    IO.eprint (f.message programName)
    return 1
  | .written path text =>
    try
      IO.FS.writeFile path text
      return 0
    catch e =>
      IO.eprint ((Cli.Failure.notWritten path (faultOf e)).message programName)
      return 1
