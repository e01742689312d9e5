import Schemata.Change
import Schemata.Table

/-!
# Databases

A database holds domains, tables and behaviors. Tables keep the order in which they were added: it is
the order in which they are worked on and shown.
-/

namespace Schemata

structure Database where
  name : String
  settings : Settings := {}
  /-- The namespace of the code of tables that have none of their own. -/
  nameSpace : Option String := none
  schema : Option String := none
  vendor : List Vendor := []
  domains : List Domain := []
  tables : List Table := []
  behaviors : List Behavior := []
deriving DecidableEq, Repr, Inhabited

namespace Database

/-! ### Tables -/

def table? (d : Database) (name : String) : Option Table :=
  d.tables.find? (·.name == name)

def hasTable (d : Database) (name : String) : Bool :=
  d.tables.any (·.name == name)

def tableNames (d : Database) : List String :=
  d.tables.map (·.name)

/-- The position of the table of a name, else of a qualified name. -/
def position? (d : Database) (name : String) : Option Nat :=
  (d.tables.findIdx? (·.name == name)).or (d.tables.findIdx? (·.qualifiedName == name))

def addTable (d : Database) (t : Table) : Except Error Database :=
  if d.hasTable t.name then .error (.constraint (.duplicateTable t.name d.name))
  else .ok { d with tables := d.tables ++ [t] }

def modifyTable (d : Database) (name : String) (f : Table → Table) : Database :=
  { d with tables := modifyFirst (·.name == name) f d.tables }

def modifyTableAt (d : Database) (pos : Nat) (f : Table → Table) : Database :=
  { d with tables := d.tables.modify pos f }

/-- A change of the table at a position; without such a table nothing happens. -/
def editAt (pos : Nat) (c : Edit Table Unit) : Edit Database Unit :=
  Change.within (·.tables) (fun ts d => { d with tables := ts }) (Change.atPosition pos c)

/-- The settings and domains alone, without tables and behaviors. -/
def withoutTables (d : Database) : Database :=
  { d with tables := [], behaviors := [] }

/-! ### Domains -/

def domain? (d : Database) (name : String) : Option Domain :=
  d.domains.find? (·.name == some name)

def addDomain (d : Database) (m : Domain) : Except Error Database :=
  match m.name with
  | none => .error (.configuration (.namelessDomain d.name))
  | some name =>
    if (d.domain? name).isSome then .error (.constraint (.duplicateDomain name d.name))
    else .ok { d with domains := d.domains ++ [m] }

/-! ### Behaviors -/

def behavior? (d : Database) (id : String) : Option Behavior :=
  d.behaviors.find? (·.id == id)

def addBehavior (d : Database) (b : Behavior) : Except Error Database :=
  (Behavior.attach (.database d.name) d.behaviors { b with table := none }).map
    fun bs => { d with behaviors := bs }

def modifyBehavior (d : Database) (id : String) (f : Behavior → Behavior) : Database :=
  { d with behaviors := modifyFirst (·.id == id) f d.behaviors }

def removeBehavior (d : Database) (id : String) : Database :=
  { d with behaviors := d.behaviors.eraseP (·.id == id) }

end Database

end Schemata
