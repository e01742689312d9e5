import Schemata.Cli

/-!
# Schemas in memory

A schema need not be in a file: its text is built, finalized and shown again, with a configuration that
is given as a text as well. Such a schema has no place beside which an included file could be looked for.
-/

namespace Schemata

/-- The configuration in a text, without one the defaults. -/
def configOf : Option String → Except Error Config
  | none => .ok {}
  | some text => Cli.parseConfig text

/-- The text of the schema of a tree, once it is finalized. -/
def dumpOf (r : Registry) (l : Library) (location : Option Path) (c : Config) (j : Json) : Except Error String := do
  let built ← (Schema.build r l location j ()).result
  let finalized := Schema.finalizeWith r c built
  let () ← finalized.result
  pure finalized.state.dump

/-- Builds and finalizes the schema in a text and gives the text of the result. -/
def buildAndDump (l : Library) (source : String) (config : Option String) : Except Error String := do
  let j ← (Json.read source).mapError fun e => .configuration (.malformed e)
  let c ← configOf config
  dumpOf .builtin l none c j

end Schemata
