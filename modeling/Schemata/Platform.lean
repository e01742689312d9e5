import Schemata.Database

/-!
# Platforms

The systems for which a schema is finalized. Only one of them has a say in the model: a MySQL table
whose storage engine is InnoDB needs an index on the local columns of each foreign key.
-/

namespace Schemata

inductive PlatformKind where
  | generic
  | mysql
  | pgsql
  | sqlite
  | oracle
  | mssql
deriving DecidableEq, Repr, Inhabited

namespace PlatformKind

def ofText? (s : String) : Option PlatformKind :=
  match Text.lower s with
  | "generic" | "default" => some .generic
  | "mysql" | "mariadb" => some .mysql
  | "pgsql" | "postgres" | "postgresql" => some .pgsql
  | "sqlite" => some .sqlite
  | "oracle" | "oci" => some .oracle
  | "mssql" | "sqlsrv" => some .mssql
  | _ => none

def text : PlatformKind → String
  | .generic => "generic"
  | .mysql => "mysql"
  | .pgsql => "pgsql"
  | .sqlite => "sqlite"
  | .oracle => "oracle"
  | .mssql => "mssql"

end PlatformKind

/-- The engine of a table for which nothing else is configured. -/
def defaultTableType : String := "InnoDB"

/-- A platform: one without rules of its own, or MySQL with the engine of tables that name none. -/
inductive Platform where
  | plain (kind : PlatformKind)
  | mysql (tableType : String)
deriving DecidableEq, Repr, Inhabited

def engine? (vs : List Vendor) : Option String :=
  (Vendor.parameter? vs "mysql" "Engine").or (Vendor.parameter? vs "mysql" "Type")

/-- The engine of a table: its own, else that of its database, else the configured one. -/
def storageEngine (tableType : String) (d : Database) (t : Table) : String :=
  ((engine? t.vendor).or (engine? d.vendor)).getD tableType

namespace Platform

def kind : Platform → PlatformKind
  | .plain kind => kind
  | .mysql _ => .mysql

def defaultEngine? : Platform → Option String
  | .plain _ => none
  | .mysql tableType => some tableType

/-- Whether the local columns of each foreign key of the table need an index. -/
def needsKeyIndex (p : Platform) (d : Database) (t : Table) : Bool :=
  match p with
  | .plain _ => false
  | .mysql tableType => Text.sameIgnoringAsciiCase (storageEngine tableType d t) "InnoDB"

/-- The index for the local columns of a foreign key, unless there are none or the table covers them. -/
def keyIndex? (t : Table) (k : ForeignKey) : Option Index :=
  if k.localColumns.isEmpty || t.coversColumns k.localColumns then none
  else
    let i := Index.ofNames k.localColumns
    some { i with ownName := some (i.defaultName t.name "fi") }

/-- The indices that the platform wants besides those of the table. -/
def extraIndices (p : Platform) (d : Database) (t : Table) : List Index :=
  if p.needsKeyIndex d t then t.foreignKeys.filterMap (keyIndex? t) else []

end Platform

end Schemata
