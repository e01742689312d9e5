import Schemata.Database

/-!
# Schemas

A schema is a list of databases together with the schemas that it includes. The tables of an included
schema become part of the databases; what was included is kept beside them.
-/

namespace Schemata

structure Included (σ : Type) where
  path : Path
  /-- Whether its tables may only be referred to. -/
  referenceOnly : Bool
  schema : σ

/-- A schema with the schemas that it includes. -/
structure Schema where
  /-- The file that the schema was read from. -/
  location : Option Path := none
  referenceOnly : Bool := false
  databases : List Database := []
  includes : List (Included Schema) := []

namespace Schema

def database? (s : Schema) (name : String) : Option Database :=
  s.databases.find? (·.name == name)

def addDatabase (s : Schema) (d : Database) : Except Error Schema :=
  if (s.database? d.name).isSome then .error (.constraint (.duplicateDatabase d.name))
  else .ok { s with databases := s.databases ++ [d] }

/-! ### Merging -/

/-- Adds tables to the database at a position, up to the first one that it already has. -/
def addTablesAt (pos : Nat) (ts : List Table) : Edit (List Database) Unit :=
  Change.forEach (fun t => Change.atPosition pos (Change.attempt (·.addTable t))) ts

/-- Where the tables of an included database go: to the database of the same name, else to the only
    database. -/
def mergeTarget? (ds : List Database) (name : String) : Option Nat :=
  match ds.findIdx? (·.name == name) with
  | some pos => some pos
  | none => if ds.length = 1 then some 0 else none

/-- Merges an included database; without a target it is appended. -/
def mergeDatabase (source : Database) (referenceOnly : Bool) : Edit (List Database) Unit := do
  let ds ← Change.get
  let ts := source.tables.map fun t => if referenceOnly then { t with referenceOnly := true } else t
  match mergeTarget? ds source.name with
  | some pos => addTablesAt pos ts
  | none =>
    Change.modify (· ++ [source.withoutTables])
    addTablesAt ds.length ts

/-- Merges an included schema and keeps it among the includes. -/
def addInclude (i : Included Schema) : Edit Schema Unit := do
  Change.within (·.databases) (fun ds s => { s with databases := ds })
    (Change.forEach (mergeDatabase · i.referenceOnly) i.schema.databases)
  Change.report (.mergedInclude i.path i.referenceOnly)
  Change.modify fun s => { s with includes := s.includes ++ [i] }

/-- Joins a database: its tables go to the database of the same name, else it is appended whole. -/
def joinDatabase (d : Database) : Edit (List Database) Unit := do
  let ds ← Change.get
  match ds.findIdx? (·.name == d.name) with
  | some pos => addTablesAt pos d.tables
  | none => Change.modify (· ++ [d])

def join (other : Schema) : Edit Schema Unit := do
  Change.within (·.databases) (fun ds s => { s with databases := ds })
    (Change.forEach joinDatabase other.databases)
  Change.modify fun s => { s with includes := s.includes ++ other.includes }

/-! ### Queries -/

/-- The namespace of a table's code: its own, else that of its database, else the empty one. -/
def codeNameSpace (d : Database) (t : Table) : String :=
  (t.nameSpace.or d.nameSpace).getD ""

/-- The namespaces and names of all tables, each with its database. -/
def qualifiedNames (s : Schema) : List ((String × String) × String) :=
  s.databases.flatMap fun d => d.tables.map fun t => ((codeNameSpace d t, t.name), d.name)

/-- The first name that occurs before, with the databases of its last occurrence and of this one. -/
def firstRepeat? (seen : List ((String × String) × String)) :
    List ((String × String) × String) → Option ((String × String) × String × String)
  | [] => none
  | q :: rest =>
    match seen.lookup q.1 with
    | some previous => some (q.1, previous, q.2)
    | none => firstRepeat? (q :: seen) rest

/-- Namespace and name together must be unique among the tables of all databases. -/
def checkQualifiedNames (s : Schema) : Except Error Unit :=
  match firstRepeat? [] s.qualifiedNames with
  | some ((nameSpace, table), first, second) =>
    .error (.constraint (.duplicateQualifiedName table nameSpace first second))
  | none => .ok ()

/-- The tables that are not for reference only, each with its database, in order. -/
def emittableTables (s : Schema) : List (Database × Table) :=
  s.databases.flatMap fun d => (d.tables.filter (!·.referenceOnly)).map fun t => (d, t)

end Schema

end Schemata
