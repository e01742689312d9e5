import Schemata.Plugin

/-!
# Archivable

Keeps deleted rows in a second table. The hook adds that table as a copy of the first one: without
keys to other tables, behaviors and unique values, which archived rows may break.
-/

namespace Schemata.Archivable

/-- The name of the archive of a table. -/
def archiveName (b : Behavior) (table : String) : String :=
  match b.parameter? "archive_table" with
  | some name => if name = "" then table ++ "_archive" else name
  | none => table ++ "_archive"

/-- Adds an index for each of a list of unique constraints. -/
def addPlainIndices (t : Table) : List Index → Except Error Table
  | [] => .ok t
  | u :: rest =>
    match t.addMissingIndex u with
    | .ok t => addPlainIndices t rest
    | .error e => .error e

/-- The table with the first column of each name no longer counting. -/
def withoutAutoIncrement (t : Table) : Table :=
  (t.columns.map (·.name)).foldl (fun t name => t.modifyColumn name ({ · with autoIncrement := false })) t

/-- The column for the time of archiving, if it is logged. -/
def archivedColumn? (b : Behavior) : Option String :=
  if b.flag "log_archived_at" then b.parameter? "archived_at_column" else none

/-- The table with the column for the time of archiving, if it is logged and missing. -/
def addArchivedColumn (t : Table) (b : Behavior) : Except Error Table :=
  match archivedColumn? b with
  | some column =>
    if t.hasColumn column then .ok t
    else t.addColumn { name := column, domain := { type := .timestamp } }
  | none => .ok t

/-- The archive of a table under a name. -/
def archive (source : Table) (name : String) (b : Behavior) : Except Error Table := do
  let copy := source.duplicate name
  let bare : Table :=
    { copy with
      settings := { copy.settings with idMethod := some .none }
      foreignKeys := []
      behaviors := []
      uniques := [] }
  let indexed ← addPlainIndices bare copy.uniques
  addArchivedColumn (withoutAutoIncrement indexed) b

def tableHook (b : Behavior) (table : String) : Edit Database Unit := do
  let d ← Change.get
  let name := archiveName b table
  if d.hasTable name then pure ()
  else
    match d.table? table with
    | none => Change.fail (.reference (.missingTarget table d.name))
    | some source =>
      let t ← Change.ofExcept (archive source name b)
      Change.report (.addingArchive table name)
      Change.attempt (·.addTable t)

def objectCode : CodeModifier where
  hooks := ["pre_delete"]
  render hook b t :=
    match hook with
    | "pre_delete" => some ("self.archive_into::<" ++ Text.studlyCase (archiveName b t.name) ++ ">()?;")
    | _ => none

def plugin : Plugin where
  defaults := [("archive_table", ""), ("archived_at_column", "archived_at"), ("log_archived_at", "true")]
  tableHook := some tableHook
  code
    | .object => some objectCode
    | .query | .tableMap => none

end Schemata.Archivable
