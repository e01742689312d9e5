import Schemata.Build.Table
import Schemata.Declaration.Record
import Schemata.Schema

/-!
# Schemas from files

A schema file is built into one database, and the files that it includes are built and merged into it.
A file is loaded once: one that is still being built may not be included again, and one that was built
before is skipped.
-/

namespace Schemata

/-- Where schema files are found. -/
structure Library where
  load : Path → Except LoadError Json
  /-- A bound for how many files can include one another in a row. -/
  depth : Nat

namespace Library

def empty : Library where
  load _ := .error .unknownFile
  depth := 0

def find? (files : List (Path × Json)) (p : Path) : Option Json :=
  ((files.filter (·.1.same p)).getLast?).map (·.2)

/-- A library of files that are at hand. -/
def ofFiles (files : List (Path × Json)) : Library where
  load p :=
    match find? files p with
    | some j => .ok j
    | none => .error .unknownFile
  depth := files.length

end Library

/-- Where an included file is: an absolute name stands for itself, any other name is looked for beside
    the file that includes it. -/
def resolveInclude (location : Option Path) (filename : String) : Except Error Path :=
  let p : Path := ⟨filename⟩
  if p.isAbsolute then .ok p
  else
    match location with
    | none => .error (.load p .noLocation)
    | some file => .ok ((file.parent?.getD ⟨""⟩).join p)

/-- The files that are being built, and all files that were ever loaded. -/
structure Visits where
  building : List Path := []
  loaded : List Path := []

namespace Visits

def enter (v : Visits) (p : Path) : Visits :=
  { v with building := p :: v.building }

def leave (v : Visits) : Visits :=
  { v with building := v.building.drop 1 }

def isBuilding (v : Visits) (p : Path) : Bool :=
  v.building.any (·.same p)

def isLoaded (v : Visits) (p : Path) : Bool :=
  v.loaded.any (·.same p)

end Visits

def loadDecl (l : Library) (p : Path) : Except Error SchemaDecl :=
  match l.load p with
  | .error e => .error (.load p e)
  | .ok j => (SchemaDecl.record.shape j).mapError fun e => .load p (.misshapen e)

/-- Builds an included file, unless it was loaded before. `build` builds a declaration at a path. -/
def buildInclude (l : Library) (build : SchemaDecl → Path → Bool → Edit Visits Schema)
    (location : Option Path) (i : IncludeDecl) : Edit Visits (Option (Included Schema)) := do
  let p ← Change.ofExcept (resolveInclude location i.filename)
  let v ← Change.get
  if v.isBuilding p then Change.fail (.load p .includesItself)
  else if v.isLoaded p then
    Change.report (.includeLoadedBefore p)
    pure none
  else
    Change.modify fun v => { v with loaded := p :: v.loaded }
    Change.report (.loadingInclude p)
    let decl ← Change.ofExcept (loadDecl l p)
    Change.modify (·.enter p)
    let schema ← build decl p i.referenceOnly
    Change.modify (·.leave)
    pure (some ⟨p, i.referenceOnly, schema⟩)

/-- The schema of a database and the includes that are merged into it. -/
def mergeIncludes (location : Option Path) (referenceOnly : Bool) (d : Database)
    (included : List (Included Schema)) : Edit Visits Schema := do
  let start : Schema := { location := location, referenceOnly := referenceOnly, databases := [d] }
  let (_, schema) ← Change.starting start (Change.forEach Schema.addInclude included)
  Change.ofExcept schema.checkQualifiedNames
  pure schema

/-- Builds a declaration, where `build` builds the files that it includes. -/
def buildDecl (r : Registry) (l : Library) (build : SchemaDecl → Path → Bool → Edit Visits Schema)
    (decl : SchemaDecl) (location : Option Path) (referenceOnly : Bool) : Edit Visits Schema := do
  let head ← Change.ofExcept (Database.head decl)
  let included ← Change.gather (buildInclude l build location) decl.includes
  let head ← Change.ofExcept (head.addSettings r decl)
  let (_, d) ← Change.starting head (Database.addDeclaredTables r referenceOnly decl.tables)
  mergeIncludes location referenceOnly d included

/-- Builds a declaration with includes that are nested up to a depth. -/
def buildNested (r : Registry) (l : Library) :
    Nat → SchemaDecl → Option Path → Bool → Edit Visits Schema
  | 0 => buildDecl r l fun _ p _ => Change.fail (.load p .tooDeep)
  | depth + 1 => buildDecl r l fun decl p referenceOnly => buildNested r l depth decl (some p) referenceOnly

namespace Schema

/-- The visits at the start: a file that is built counts as loaded. -/
def startVisits : Option Path → Visits
  | none => {}
  | some p => { building := [p], loaded := [p] }

def build (r : Registry) (l : Library) (location : Option Path) (j : Json) : Edit Unit Schema := do
  let decl ← Change.ofExcept
    ((SchemaDecl.record.shape j).mapError fun e => .configuration (.misshapen e))
  let (schema, _) ← Change.starting (startVisits location)
    (buildNested r l (l.depth + 1) decl location false)
  pure schema

def load (r : Registry) (l : Library) (p : Path) : Edit Unit Schema := do
  match l.load p with
  | .error e => Change.fail (.load p e)
  | .ok j => build r l (some p) j

end Schema

end Schemata
