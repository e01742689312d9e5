import Schemata.Config
import Schemata.Finalize.BackEdge
import Schemata.Finalize.HeavyIndex
import Schemata.Finalize.Settle
import Schemata.Schema

/-!
# Finalizing a schema

A built schema becomes the graph that generators read. For each database the behaviors run, tables take
over the settings of the database, and then every table in order gets its heavy indices, its id method,
the columns of its implicit keys, its back edges and the indices of the platform. Back edges are derived
from scratch and behaviors know that they have run, so finalizing again changes nothing. After an error
the schema is left as it was at that point.
-/

namespace Schemata

namespace Table

/-- The table with the settings of its database where it has none, and without back edges. -/
def prepare (d : Database) (t : Table) : Table :=
  { t.clearReferrers with
    settings := t.settings.orElse d.settings
    nameSpace := t.nameSpace.or d.nameSpace
    containsForeignKey := false }

/-- Nothing counts in a table without a column that counts. -/
def dropUnusedIdMethod : Edit Table Unit := do
  let t ← Change.get
  if t.idMethod = .native && !t.hasAutoIncrement then
    Change.report (.droppedIdMethod t.name)
    Change.modify fun t => { t with settings := { t.settings with idMethod := some .none } }
  else pure ()

/-- Adds an index that the platform wants, unless there is one over its columns. -/
def addKeyIndex (i : Index) : Edit Table Unit := do
  let t ← Change.get
  if t.hasIndexOver i.columnNames then pure ()
  else
    Change.attempt (·.addIndex i)
    Change.report (.addedForeignKeyIndex t.name i.name)

/-- A table that is emitted should have a primary key. -/
def warnWithoutKey : Edit Table Unit := do
  let t ← Change.get
  if !t.hasPrimaryKey && !t.referenceOnly then Change.report (.noPrimaryKey t.name) else pure ()

end Table

namespace Database

/-- Adds the indices that the platform wants for the table at a position. -/
def addKeyIndices (p : Platform) (pos : Nat) : Edit Database Unit := do
  let d ← Change.get
  match d.tables[pos]? with
  | none => pure ()
  | some t => editAt pos (Change.forEach Table.addKeyIndex (p.extraIndices d t))

def finalizeTable (p : Platform) (pos : Nat) : Edit Database Unit := do
  editAt pos Table.addHeavyIndices
  editAt pos Table.dropUnusedIdMethod
  completeKeys pos
  linkKeys pos
  addKeyIndices p pos
  editAt pos Table.warnWithoutKey

/-- The database with all its tables prepared. -/
def prepareTables (d : Database) : Database :=
  { d with tables := d.tables.map (Table.prepare d) }

def finalizeTables (p : Platform) : Edit Database Unit := do
  let d ← Change.get
  Change.forEach (finalizeTable p) (List.range d.tables.length)

/-- Finalizes a database and gives the behaviors that were run. -/
def finalize (limit : Nat) (r : Registry) (p : Platform) : Edit Database (List HookRun) := do
  let ran ← settle limit r
  Change.modify prepareTables
  finalizeTables p
  let d ← Change.get
  Change.report (.finalizedDatabase d.name d.tables.length)
  pure ran

end Database

namespace Schema

def finalize (limit : Nat) (r : Registry) (p : Platform) : Edit Schema Unit :=
  Change.within (·.databases) (fun ds s => { s with databases := ds })
    (Change.each do let _ ← Database.finalize limit r p)

/-- The schema with every database indexed heavily. -/
def forceHeavyIndexing (s : Schema) : Schema :=
  { s with
    databases := s.databases.map fun d => { d with settings := { d.settings with heavyIndexing := true } } }

def finalizeWithin (limit : Nat) (r : Registry) (c : Config) : Edit Schema Unit := do
  if c.heavyIndexing then Change.modify forceHeavyIndexing
  finalize limit r c.platform

def finalizeWith (r : Registry) (c : Config) : Edit Schema Unit :=
  finalizeWithin settleLimit r c

end Schema

end Schemata
