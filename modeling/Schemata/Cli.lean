import Schemata.Dump
import Schemata.Finalize
import Schemata.Json.Reader
import Schemata.Plugin.Builtin
import Schemata.Build.Schema

/-!
# The command line

`program schema.json [options]` builds the schema of a file, finalizes it and shows its text, or writes
it to a file. What the command line does is a function of its arguments and of the files that it can
read; only reading and writing is left to the caller.
-/

namespace Schemata.Cli

structure Source where
  read : String → Except FileFault String
  /-- A bound for how many files can include one another in a row. -/
  depth : Nat

structure Options where
  input : String
  config : Option String := none
  output : Option String := none
deriving DecidableEq, Repr, Inhabited

/-- Why the command line gives up, each with the file it was working on. -/
inductive Failure where
  | noInput
  | unknownOption (option : String)
  | unreadableConfig (path : String) (fault : FileFault)
  | badConfig (path : String) (e : Error)
  | notBuilt (e : Error)
  | notFinalized (e : Error)
  | notWritten (path : String) (fault : FileFault)
deriving DecidableEq, Repr, Inhabited

def usage (program : String) : String :=
  "Usage: " ++ program ++ " <schema.json> [options]\n\nOptions:\n"
    ++ "  -c, --config <file>   Generator configuration (JSON)\n"
    ++ "  -o, --output <file>   Output file (default: stdout)\n"

def Failure.message (program : String) : Failure → String
  | .noInput => usage program
  | .unknownOption option => s!"Unknown option: {option}\n"
  | .unreadableConfig path fault => s!"Failed to read {path}: " ++ fault.message ++ "\n"
  | .badConfig path e => s!"Config error in {path}: " ++ e.message ++ "\n"
  | .notBuilt e => "Build error: " ++ e.message ++ "\n"
  | .notFinalized e => "Finalize error: " ++ e.message ++ "\n"
  | .notWritten path fault => s!"Failed to write {path}: " ++ fault.message ++ "\n"

/-- Reads the options behind the input file. A later option replaces an earlier one, and one without
    its file is skipped. -/
def readOptions (o : Options) : List String → Except Failure Options
  | [] => .ok o
  | [arg] =>
    if arg = "-o" || arg = "--output" || arg = "-c" || arg = "--config" then .ok o
    else .error (.unknownOption arg)
  | arg :: file :: rest =>
    if arg = "-o" || arg = "--output" then readOptions { o with output := some file } rest
    else if arg = "-c" || arg = "--config" then readOptions { o with config := some file } rest
    else .error (.unknownOption arg)

def readArguments : List String → Except Failure Options
  | [] => .error .noInput
  | input :: rest => readOptions { input := input } rest

def parseFile (text : String) : Except LoadError Json :=
  (Json.read text).mapError .malformed

def Source.library (s : Source) : Library where
  load p :=
    match s.read p.text with
    | .ok text => parseFile text
    | .error fault => .error (.unreadable fault)
  depth := s.depth

def parseConfig (text : String) : Except Error Config := do
  Config.ofJson (← (Json.read text).mapError fun e => .configuration (.malformed e))

def readConfig (s : Source) : Option String → Except Failure Config
  | none => .ok {}
  | some path =>
    match s.read path with
    | .error fault => .error (.unreadableConfig path fault)
    | .ok text => (parseConfig text).mapError (.badConfig path)

def render (s : Source) (o : Options) : Except Failure String := do
  let config ← readConfig s o.config
  let built ← ((Schema.load .builtin s.library ⟨o.input⟩) ()).result.mapError .notBuilt
  let finalized := Schema.finalizeWith .builtin config built
  match finalized.result with
  | .ok () => pure finalized.state.dump
  | .error e => throw (.notFinalized e)

/-- What is left to do: nothing but to show a text, or to write it to a file. -/
inductive Result where
  | shown (text : String)
  | written (path text : String)
  | failed (f : Failure)

def run (s : Source) (args : List String) : Result :=
  match readArguments args with
  | .error f => .failed f
  | .ok o =>
    match render s o with
    | .error f => .failed f
    | .ok text =>
      match o.output with
      | some path => .written path text
      | none => .shown text

/-- The files that a schema file includes, as far as it can be read. -/
def includedFiles (path text : String) : List String :=
  match parseFile text with
  | .error _ => []
  | .ok j =>
    match SchemaDecl.record.shape j with
    | .error _ => []
    | .ok decl =>
      decl.includes.filterMap fun i =>
        match resolveInclude (some ⟨path⟩) i.filename with
        | .ok p => some p.text
        | .error _ => none

end Schemata.Cli
