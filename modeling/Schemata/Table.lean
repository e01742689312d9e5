import Schemata.Behavior
import Schemata.Column
import Schemata.Index
import Schemata.Lookup
import Schemata.Setting

/-!
# Tables

A table holds columns, keys, indices and behaviors, each unique by name or id. The operations that add
something either succeed or leave the table as it is. The back edges, the foreign keys that point at
the table and whether its primary key refers elsewhere, are derived by finalization.
-/

namespace Schemata

/-- An argument of the id method, such as the name of a sequence. -/
structure IdParameter where
  name : Option String := none
  value : String
deriving DecidableEq, Repr, Inhabited

structure Table where
  name : String
  ownSqlName : Option String := none
  ownCodeName : Option String := none
  nameSpace : Option String := none
  /-- The SQL schema that holds the table. -/
  schema : Option String := none
  description : Option String := none
  settings : OwnSettings := {}
  idParameters : List IdParameter := []
  /-- Whether the table may be referred to but is not emitted. -/
  referenceOnly : Bool := false
  skipSql : Bool := false
  readOnly : Bool := false
  isAbstract : Bool := false
  isCrossRef : Bool := false
  allowKeyInsert : Bool := false
  vendor : List Vendor := []
  columns : List Column := []
  foreignKeys : List ForeignKey := []
  indices : List Index := []
  uniques : List Index := []
  behaviors : List Behavior := []
  /-- The foreign keys that point at the table. -/
  referrers : List KeyId := []
  /-- Whether a column of the primary key is the local side of a foreign key. -/
  containsForeignKey : Bool := false
deriving DecidableEq, Repr, Inhabited

namespace Table

/-! ### Names and settings -/

def sqlName (t : Table) : String :=
  t.ownSqlName.getD t.name

def codeName (t : Table) : String :=
  t.ownCodeName.getD (Text.studlyCase t.name)

/-- The name behind the SQL schema, when there is one. -/
def qualifiedName (t : Table) : String :=
  match t.schema with
  | some schema => schema ++ "." ++ t.name
  | none => t.name

def idMethod (t : Table) : IdMethod :=
  t.settings.idMethod.getD .native

def isHeavyIndexing (t : Table) : Bool :=
  t.settings.heavyIndexing.getD false

/-! ### Columns -/

def column? (t : Table) (name : String) : Option Column :=
  t.columns.find? (·.name == name)

def hasColumn (t : Table) (name : String) : Bool :=
  t.columns.any (·.name == name)

def primaryKey (t : Table) : List Column :=
  t.columns.filter (·.primaryKey)

def primaryKeyNames (t : Table) : List String :=
  t.primaryKey.map (·.name)

def hasPrimaryKey (t : Table) : Bool :=
  t.columns.any (·.primaryKey)

/-- The columns of the primary key, of which there must be one. -/
def requirePrimaryKey (t : Table) : Except Error (List Column) :=
  if t.primaryKey.isEmpty then .error (.constraint (.noPrimaryKey t.name)) else .ok t.primaryKey

def hasAutoIncrement (t : Table) : Bool :=
  t.columns.any (·.autoIncrement)

def discriminator? (t : Table) : Option Column :=
  t.columns.find? (·.isDiscriminator)

def primaryString? (t : Table) : Option Column :=
  t.columns.find? (·.primaryString)

def addColumn (t : Table) (c : Column) : Except Error Table :=
  if t.hasColumn c.name then .error (.constraint (.duplicateColumn c.name t.name))
  else .ok { t with columns := t.columns ++ [c] }

def modifyColumn (t : Table) (name : String) (f : Column → Column) : Table :=
  { t with columns := modifyFirst (·.name == name) f t.columns }

/-! ### Foreign keys -/

def foreignKey? (t : Table) (name : String) : Option ForeignKey :=
  t.foreignKeys.find? (·.name == name)

/-- The table with one more foreign key, which it owns from now on. -/
def addForeignKey (t : Table) (k : ForeignKey) : Except Error Table :=
  if t.foreignKeys.any (·.name == k.name) then
    .error (.constraint (.duplicateForeignKey k.name t.name))
  else .ok { t with foreignKeys := t.foreignKeys ++ [{ k with table := t.name }] }

def modifyForeignKey (t : Table) (name : String) (f : ForeignKey → ForeignKey) : Table :=
  { t with foreignKeys := modifyFirst (·.name == name) f t.foreignKeys }

def removeForeignKey (t : Table) (name : String) : Table :=
  { t with foreignKeys := t.foreignKeys.eraseP (·.name == name) }

/-! ### Indices -/

def hasIndexName (t : Table) (name : String) : Bool :=
  t.indices.any (·.name == name) || t.uniques.any (·.name == name)

/-- The index under the name that it gets in the table, if its columns exist and the name is free. -/
def checkedIndex (t : Table) (kind : IndexKind) (i : Index) : Except Error Index :=
  if i.columns.isEmpty then .error (.constraint (.emptyIndex kind i.name t.name))
  else
    match i.columnNames.find? (!t.hasColumn ·) with
    | some column => .error (.reference (.unknownIndexColumn kind t.name column))
    | none =>
      let name := i.ownName.getD (i.defaultName t.name kind.marker)
      if t.hasIndexName name then .error (.constraint (.duplicateIndexName name t.name))
      else .ok { i with ownName := some name }

def addIndex (t : Table) (i : Index) : Except Error Table :=
  (t.checkedIndex .index i).map fun i => { t with indices := t.indices ++ [i] }

def hasIndexOver (t : Table) (names : List String) : Bool :=
  t.indices.any (·.hasColumns names)

/-- The table with one more index, unless it has one over the same columns. -/
def addMissingIndex (t : Table) (i : Index) : Except Error Table :=
  if t.hasIndexOver i.columnNames then .ok t else t.addIndex i

def addUnique (t : Table) (i : Index) : Except Error Table :=
  (t.checkedIndex .unique i).map fun i => { t with uniques := t.uniques ++ [i] }

/-- Whether the primary key, an index or a unique constraint begins with these columns. -/
def coversColumns (t : Table) (names : List String) : Bool :=
  (Index.ofNames t.primaryKeyNames).covers names
    || t.indices.any (·.covers names)
    || t.uniques.any (·.covers names)

/-! ### Behaviors -/

def behavior? (t : Table) (id : String) : Option Behavior :=
  t.behaviors.find? (·.id == id)

/-- The table with one more behavior, which it owns from now on. -/
def addBehavior (t : Table) (b : Behavior) : Except Error Table :=
  (Behavior.attach (.table t.name) t.behaviors { b with table := some t.name }).map
    fun bs => { t with behaviors := bs }

def modifyBehavior (t : Table) (id : String) (f : Behavior → Behavior) : Table :=
  { t with behaviors := modifyFirst (·.id == id) f t.behaviors }

def removeBehavior (t : Table) (id : String) : Table :=
  { t with behaviors := t.behaviors.eraseP (·.id == id) }

/-! ### Back edges -/

def addReferrer (t : Table) (k : KeyId) : Table :=
  { t with referrers := addKeyId k t.referrers }

/-- The table with no back edge at itself or its columns. -/
def clearReferrers (t : Table) : Table :=
  { t with referrers := [], columns := t.columns.map (·.clearReferrers) }

/-! ### Copies -/

/-- The name of an index of a copy: a name that begins with the old table name follows the new one. -/
def renamedIndex (old new : String) (i : Index) : Index :=
  match i.ownName with
  | some name =>
    let start := (old ++ "_").toList
    if start.isPrefixOf name.toList then
      { i with ownName := some (new ++ "_" ++ String.ofList (name.toList.drop start.length)) }
    else i
  | none => i

/-- A copy under a new name. Keys, behaviors and the names of indices follow the copy; names in SQL and
    in code and the back edges do not come along. -/
def duplicate (t : Table) (name : String) : Table :=
  { t.clearReferrers with
    name := name
    ownSqlName := none
    ownCodeName := none
    containsForeignKey := false
    foreignKeys := t.foreignKeys.map fun k => { k with table := name }
    behaviors := t.behaviors.map (·.forTable name)
    indices := t.indices.map (renamedIndex t.name name)
    uniques := t.uniques.map (renamedIndex t.name name) }

end Table

end Schemata
