import Schemata.Json.Basic

/-!
# Declarations

A schema as its author writes it: databases with domains, tables, columns and keys, all by name, before
any name is looked up or any spelling is understood. Absent settings stay absent.
-/

namespace Schemata

/-- Parameters for one platform. -/
structure VendorDecl where
  kind : String
  parameters : List (String × Json) := []

structure BehaviorDecl where
  name : String
  id : Option String := none
  parameters : List (String × Json) := []

/-- A domain: a column type with a name. -/
structure DomainDecl where
  name : String
  type : String
  sqlType : Option String := none
  size : Option Nat := none
  scale : Option Nat := none
  defaultValue : Option Json := none
  defaultExpr : Option String := none

structure InheritanceDecl where
  key : Json
  className : String
  ancestor : Option String := none

structure ColumnDecl where
  name : String
  sqlName : Option String := none
  codeName : Option String := none
  description : Option String := none
  type : Option String := none
  sqlType : Option String := none
  size : Option Nat := none
  scale : Option Nat := none
  defaultValue : Option Json := none
  defaultExpr : Option String := none
  domain : Option String := none
  primaryKey : Bool := false
  autoIncrement : Bool := false
  required : Bool := false
  lazyLoad : Bool := false
  primaryString : Bool := false
  inheritance : List InheritanceDecl := []
  vendor : List VendorDecl := []

structure ReferenceDecl where
  localColumn : String
  foreignColumn : String

/-- A foreign key; without pairs it is implicit. -/
structure ForeignKeyDecl where
  name : Option String := none
  foreignTable : String
  foreignSchema : Option String := none
  codeName : Option String := none
  reverseCodeName : Option String := none
  onDelete : Option String := none
  onUpdate : Option String := none
  skipSql : Bool := false
  defaultJoin : Option String := none
  references : List ReferenceDecl := []
  vendor : List VendorDecl := []

structure IndexColumnDecl where
  name : String
  size : Option Nat := none

structure IndexDecl where
  name : Option String := none
  columns : List IndexColumnDecl := []
  vendor : List VendorDecl := []

structure IdParameterDecl where
  name : Option String := none
  value : Json

structure TableDecl where
  name : String
  sqlName : Option String := none
  codeName : Option String := none
  nameSpace : Option String := none
  schema : Option String := none
  description : Option String := none
  idMethod : Option String := none
  idParameters : List IdParameterDecl := []
  heavyIndexing : Option Bool := none
  identifierQuoting : Option Bool := none
  stringFormat : Option String := none
  accessorVisibility : Option String := none
  mutatorVisibility : Option String := none
  referenceOnly : Bool := false
  skipSql : Bool := false
  readOnly : Bool := false
  isAbstract : Bool := false
  isCrossRef : Bool := false
  allowKeyInsert : Bool := false
  columns : List ColumnDecl := []
  foreignKeys : List ForeignKeyDecl := []
  indices : List IndexDecl := []
  uniques : List IndexDecl := []
  behaviors : List BehaviorDecl := []
  vendor : List VendorDecl := []

structure IncludeDecl where
  filename : String
  referenceOnly : Bool := true

/-- A schema file: one database and the files it includes. -/
structure SchemaDecl where
  name : String
  idMethod : Option String := none
  nameSpace : Option String := none
  identifierQuoting : Option Bool := none
  stringFormat : Option String := none
  heavyIndexing : Option Bool := none
  schema : Option String := none
  accessorVisibility : Option String := none
  mutatorVisibility : Option String := none
  includes : List IncludeDecl := []
  behaviors : List BehaviorDecl := []
  vendor : List VendorDecl := []
  domains : List DomainDecl := []
  tables : List TableDecl := []

end Schemata
