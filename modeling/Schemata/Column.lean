import Schemata.Domain
import Schemata.Error
import Schemata.ForeignKey
import Schemata.Text.Words

/-!
# Columns

A column of a table: its domain, its flags, the classes that its values select, and the foreign keys
that point at it.
-/

namespace Schemata

/-- A class of an inheritance hierarchy, selected by a value of the column. -/
structure InheritanceClass where
  key : String
  className : String
  ancestor : Option String := none
deriving DecidableEq, Repr, Inhabited

structure Column where
  name : String
  /-- The name in SQL, when it is not the name of the column. -/
  ownSqlName : Option String := none
  /-- The name in generated code, when it does not follow from the name. -/
  ownCodeName : Option String := none
  description : Option String := none
  domain : Domain := {}
  primaryKey : Bool := false
  autoIncrement : Bool := false
  notNull : Bool := false
  lazyLoad : Bool := false
  primaryString : Bool := false
  vendor : List Vendor := []
  inheritance : List InheritanceClass := []
  /-- The foreign keys that point at the column; finalization fills them in. -/
  referrers : List KeyId := []
deriving DecidableEq, Repr, Inhabited

/-- The list with `k` at its end, unless it is there already. -/
def addKeyId (k : KeyId) (ks : List KeyId) : List KeyId :=
  if k ∈ ks then ks else ks ++ [k]

namespace Column

def sqlName (c : Column) : String :=
  c.ownSqlName.getD c.name

def codeName (c : Column) : String :=
  c.ownCodeName.getD (Text.studlyCase c.name)

/-- The constant under which generated code knows a column. -/
def constantFor (name : String) : String :=
  "COL_" ++ Text.constantCase name

def constantName (c : Column) : String :=
  constantFor c.name

/-- Whether the values of the column select classes. -/
def isDiscriminator (c : Column) : Bool :=
  !c.inheritance.isEmpty

/-- The column with one more class. Keys are unique. -/
def addClass (c : Column) (i : InheritanceClass) : Except Error Column :=
  if c.inheritance.any (·.key == i.key) then
    .error (.constraint (.duplicateInheritanceKey i.key c.name))
  else .ok { c with inheritance := c.inheritance ++ [i] }

def addReferrer (c : Column) (k : KeyId) : Column :=
  { c with referrers := addKeyId k c.referrers }

def clearReferrers (c : Column) : Column :=
  { c with referrers := [] }

end Column

end Schemata
