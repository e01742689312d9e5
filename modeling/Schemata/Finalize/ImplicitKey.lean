import Schemata.Naming
import Schemata.Database

/-!
# Implicit foreign keys

A foreign key without pairs gets a pair for each column of the foreign primary key: a new local column
with the domain of the foreign one, named after the key and that column.
-/

namespace Schemata

namespace Database

/-- The position of the table that a key points at: by its name, else by its qualified name, else by
    its name behind the schema that the key gives. -/
def resolve? (d : Database) (k : ForeignKey) : Option Nat :=
  (d.position? k.target).or (k.targetSchema.bind fun schema => d.position? (schema ++ "." ++ k.target))

def resolve (d : Database) (pos : Nat) (k : ForeignKey) : Except Error Nat :=
  match d.resolve? k with
  | some target => .ok target
  | none =>
    let own := (d.tables[pos]?.map (·.name)).getD ""
    .error (.reference (.unknownForeignTable k.name own k.target d.name d.tableNames))

end Database

namespace Table

/-- The column that a key gets for a foreign column. -/
def implicitColumn (key : String) (foreign : Column) : Column :=
  { name := implicitColumnName key foreign.name, domain := foreign.domain.unnamed }

def addImplicitColumn (key : String) (foreign : Column) : Edit Table Unit := do
  let t ← Change.get
  let name := implicitColumnName key foreign.name
  if t.hasColumn name then Change.fail (.constraint (.synthesizedColumnExists name key t.name))
  else
    Change.report (.addingImplicitColumn t.name name)
    Change.attempt (·.addColumn (implicitColumn key foreign))

def implicitReferences (key : String) (primaryKey : List Column) : List Reference :=
  primaryKey.map fun c => ⟨implicitColumnName key c.name, c.name⟩

/-- Adds the columns and the pairs of a key for a foreign primary key. -/
def completeKey (key : String) (primaryKey : List Column) : Edit Table Unit := do
  Change.forEach (addImplicitColumn key) primaryKey
  Change.modify (·.modifyForeignKey key fun k =>
    { k with references := k.references ++ implicitReferences key primaryKey })

end Table

namespace Database

/-- Completes one implicit key of the table at a position. -/
def completeKey (pos : Nat) (k : ForeignKey) : Edit Database Unit := do
  let d ← Change.get
  let target ← Change.ofExcept (d.resolve pos k)
  match d.tables[target]? with
  | none => pure ()
  | some foreign =>
    if foreign.hasPrimaryKey then editAt pos (Table.completeKey k.name foreign.primaryKey)
    else Change.fail (.constraint (.noForeignPrimaryKey k.name k.table foreign.name))

/-- Completes the implicit keys of the table at a position, in their order. -/
def completeKeys (pos : Nat) : Edit Database Unit := do
  let d ← Change.get
  match d.tables[pos]? with
  | none => pure ()
  | some t => Change.forEach (completeKey pos) (t.foreignKeys.filter (·.isImplicit))

end Database

end Schemata
