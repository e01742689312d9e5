import Schemata.Schema

/-!
# The text of a schema

A schema is shown line by line: a database, below it its behaviors and tables, and below each table its
columns, keys, indices, behaviors and back edges. An empty line separates databases. What has a default
is left out where the default holds.
-/

namespace Schemata

namespace Dump

def listed (texts : List String) : String :=
  ", ".intercalate texts

def keyIds (ks : List KeyId) : String :=
  listed (ks.map KeyId.text)

/-- A size with its scale; a scale alone is not shown. -/
def sizeText (size scale : Option Nat) : String :=
  match size, scale with
  | some size, some scale => s!"({size},{scale})"
  | some size, none => s!"({size})"
  | none, _ => ""

def defaultText : Option Default → String
  | some (.value text) => " default='" ++ text ++ "'"
  | some (.expression text) => " default=" ++ text
  | none => ""

/-- A word, where a condition holds. -/
def word (shown : Bool) (text : String) : String :=
  if shown then " " ++ text else ""

def actionText (label : String) (a : ReferentialAction) : String :=
  match a.sql? with
  | some sql => " " ++ label ++ "=" ++ sql
  | none => ""

def behaviorLine (indent : String) (b : Behavior) : String :=
  indent ++ "behavior " ++ b.id
    ++ (if b.id = b.name then "" else " (" ++ b.name ++ ")")
    ++ String.join (b.parameters.entries.map fun p => " " ++ p.1 ++ "=" ++ p.2)
    ++ word b.executed "[executed]"

def columnLine (c : Column) : String :=
  "    column " ++ c.name ++ " " ++ c.domain.type.name ++ sizeText c.domain.size c.domain.scale
    ++ word c.primaryKey "pk"
    ++ word c.autoIncrement "autoIncrement"
    ++ word c.notNull "notNull"
    ++ defaultText c.domain.default
    ++ (if c.referrers.isEmpty then "" else " <- " ++ keyIds c.referrers)

def referenceText (r : Reference) : String :=
  r.localColumn ++ "=" ++ r.foreignColumn

def foreignKeyLine (k : ForeignKey) : String :=
  "    foreignKey " ++ k.name ++ " -> " ++ k.target
    ++ " (" ++ listed (k.references.map referenceText) ++ ")"
    ++ actionText "onDelete" k.onDelete
    ++ actionText "onUpdate" k.onUpdate

def indexColumnText (c : IndexColumn) : String :=
  match c.size with
  | some size => c.name ++ s!"({size})"
  | none => c.name

def indexLine (label : String) (i : Index) : String :=
  "    " ++ label ++ " " ++ i.name ++ " (" ++ listed (i.columns.map indexColumnText) ++ ")"

def tableLine (t : Table) : String :=
  "  table " ++ t.name
    ++ (if t.sqlName = t.name then "" else " (" ++ t.sqlName ++ ")")
    ++ word t.referenceOnly "reference-only"
    ++ word t.skipSql "skip-sql"
    ++ " idMethod=" ++ t.idMethod.text
    ++ s!" containsForeignPK={t.containsForeignKey}"

def tableLines (t : Table) : List String :=
  tableLine t
    :: t.columns.map columnLine
    ++ t.foreignKeys.map foreignKeyLine
    ++ t.indices.map (indexLine "index")
    ++ t.uniques.map (indexLine "unique")
    ++ t.behaviors.map (behaviorLine "    ")
    ++ (if t.referrers.isEmpty then [] else ["    referrers " ++ keyIds t.referrers])

def databaseLine (d : Database) : String :=
  "database " ++ d.name
    ++ " idMethod=" ++ d.settings.idMethod.text
    ++ s!" heavyIndexing={d.settings.heavyIndexing}"
    ++ s!" identifierQuoting={d.settings.identifierQuoting}"
    ++ " stringFormat=" ++ d.settings.stringFormat.text

def databaseLines (d : Database) : List String :=
  databaseLine d
    :: d.nameSpace.toList.map ("  namespace " ++ ·)
    ++ d.behaviors.map (behaviorLine "  ")
    ++ d.tables.flatMap tableLines

def linesText (lines : List String) : String :=
  String.join (lines.map (· ++ "\n"))

end Dump

def Schema.dump (s : Schema) : String :=
  "\n".intercalate (s.databases.map fun d => Dump.linesText (Dump.databaseLines d))

end Schemata
