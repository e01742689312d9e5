import Schemata.Vendor

/-!
# Indices

An ordered list of columns of a table. A unique constraint has the same form.
-/

namespace Schemata

/-- A column of an index, with the length of the part that is indexed. -/
structure IndexColumn where
  name : String
  size : Option Nat := none
deriving DecidableEq, Repr, Inhabited

structure Index where
  /-- The name, when it is given. -/
  ownName : Option String := none
  columns : List IndexColumn := []
  vendor : List Vendor := []
deriving DecidableEq, Repr, Inhabited

namespace Index

/-- An index without a name over whole columns. -/
def ofNames (names : List String) : Index :=
  { columns := names.map fun name => { name := name } }

def name (i : Index) : String :=
  i.ownName.getD ""

def columnNames (i : Index) : List String :=
  i.columns.map (·.name)

/-- Whether the index is over exactly these columns, in this order. -/
def hasColumns (i : Index) (names : List String) : Bool :=
  i.columnNames == names

/-- Whether the index serves look-ups on these columns: they are its first ones. -/
def covers (i : Index) (names : List String) : Bool :=
  !names.isEmpty && names.isPrefixOf i.columnNames

/-- The name of an index that has none of its own. -/
def defaultName (i : Index) (table marker : String) : String :=
  table ++ "_" ++ marker ++ "_" ++ "_".intercalate i.columnNames

end Index

end Schemata
