import Schemata.Database
import Schemata.Declaration

/-!
# Columns, keys and indices from declarations

Each declared part of a table becomes a part of the model: spellings are understood, scalars become
text, and a column takes over the domain that it names.
-/

namespace Schemata

/-! ### Spellings -/

def readColumnType (s : String) : Except Error ColumnType :=
  match ColumnType.ofText? s with
  | some type => .ok type
  | none => .error (.configuration (.unknownColumnType s))

def readIdMethod (s : String) : Except Error IdMethod :=
  match IdMethod.ofText? s with
  | some method => .ok method
  | none => .error (.configuration (.unknownIdMethod s))

def readStringFormat (s : String) : Except Error StringFormat :=
  match StringFormat.ofText? s with
  | some format => .ok format
  | none => .error (.configuration (.unknownStringFormat s))

def readVisibility (s : String) : Except Error Visibility :=
  match Visibility.ofText? s with
  | some visibility => .ok visibility
  | none => .error (.configuration (.unknownVisibility s))

/-- The action that a schema names; none is given as no action. -/
def readAction : Option String → Except Error ReferentialAction
  | none => .ok .none
  | some s =>
    match ReferentialAction.ofText? s with
    | some action => .ok action
    | none => .error (.configuration (.unknownReferentialAction s))

/-- The text of a scalar, or an error for anything else. -/
def readScalar (j : Json) (e : ConfigurationError) : Except Error String :=
  match j.scalarText? with
  | some text => .ok text
  | none => .error (.configuration e)

/-- A change of an optional value that may fail. -/
def readOptional {α β : Type} (f : α → Except Error β) : Option α → Except Error (Option β)
  | none => .ok none
  | some a => (f a).map some

/-! ### Vendor blocks -/

def Vendor.ofDecl (v : VendorDecl) : Except Error Vendor := do
  let parameters ← v.parameters.mapM fun p => do
    pure (p.1, ← readScalar p.2 (.vendorParameterNotScalar p.1 v.kind))
  pure { platform := v.kind, parameters := Dictionary.ofList parameters }

/-! ### Domains -/

/-- A default is a scalar or an expression, not both. -/
def Default.ofDecl (owner : DefaultOwner) (value : Option Json) (expr : Option String) :
    Except Error (Option Default) :=
  match value, expr with
  | some _, some _ => .error (.configuration (.twoDefaults owner))
  | some j, none => (readScalar j (.defaultNotScalar owner)).map (some ∘ .value)
  | none, some expr => .ok (some (.expression expr))
  | none, none => .ok none

def Domain.ofDecl (m : DomainDecl) : Except Error Domain := do
  let type ← readColumnType m.type
  let default ← Default.ofDecl (.domain m.name) m.defaultValue m.defaultExpr
  pure
    { name := some m.name
      type := type
      sqlType := m.sqlType
      size := m.size
      scale := m.scale
      default := default }

/-! ### Columns -/

/-- The domain that a column starts from: the one that it names, else the default one. -/
def baseDomain (d : Database) (table : String) (c : ColumnDecl) : Except Error Domain :=
  match c.domain with
  | none => .ok {}
  | some name =>
    match d.domain? name with
    | some m => .ok m.unnamed
    | none => .error (.reference (.unknownDomain table c.name name))

/-- The domain of a column: what it sets itself goes over what it takes over. -/
def columnDomain (d : Database) (table : String) (c : ColumnDecl) : Except Error Domain := do
  let base ← baseDomain d table c
  let type ← readOptional readColumnType c.type
  let default ← Default.ofDecl (.column table c.name) c.defaultValue c.defaultExpr
  pure
    { base with
      type := type.getD base.type
      sqlType := c.sqlType.or base.sqlType
      size := c.size.or base.size
      scale := c.scale.or base.scale
      default := default.or base.default }

def addClasses (owner : DefaultOwner) (c : Column) : List InheritanceDecl → Except Error Column
  | [] => .ok c
  | i :: rest => do
    let key ← readScalar i.key (.inheritanceKeyNotScalar owner)
    addClasses owner (← c.addClass ⟨key, i.className, i.ancestor⟩) rest

def Column.ofDecl (d : Database) (table : String) (c : ColumnDecl) : Except Error Column := do
  let domain ← columnDomain d table c
  let bare : Column :=
    { name := c.name
      ownSqlName := c.sqlName
      ownCodeName := c.codeName
      description := c.description
      domain := domain
      primaryKey := c.primaryKey
      autoIncrement := c.autoIncrement
      notNull := c.required || c.primaryKey
      lazyLoad := c.lazyLoad
      primaryString := c.primaryString }
  let column ← addClasses (.column table c.name) bare c.inheritance
  let vendor ← c.vendor.mapM Vendor.ofDecl
  pure { column with vendor := vendor }

/-! ### Foreign keys -/

/-- The part of a name behind its last point. -/
def lastSegment (s : String) : String :=
  String.ofList (s.toList.reverse.takeWhile (· ≠ '.')).reverse

/-- The name of a key that has none: an implicit key takes the bare name of the foreign table, since its
    columns are named after it; any other is named after its local columns. -/
def ForeignKeyDecl.keyName (table : String) (k : ForeignKeyDecl) : String :=
  match k.name with
  | some name => name
  | none =>
    if k.references.isEmpty then lastSegment k.foreignTable
    else table ++ "_fk_" ++ "_".intercalate (k.references.map (·.localColumn))

def ForeignKey.ofDecl (table : String) (k : ForeignKeyDecl) : Except Error ForeignKey := do
  let onDelete ← readAction k.onDelete
  let onUpdate ← readAction k.onUpdate
  let vendor ← k.vendor.mapM Vendor.ofDecl
  pure
    { name := k.keyName table
      target := k.foreignTable
      targetSchema := k.foreignSchema
      codeName := k.codeName
      reverseCodeName := k.reverseCodeName
      onDelete := onDelete
      onUpdate := onUpdate
      skipSql := k.skipSql
      defaultJoin := k.defaultJoin
      vendor := vendor
      references := k.references.map fun r => ⟨r.localColumn, r.foreignColumn⟩ }

/-! ### Indices -/

def Index.ofDecl (i : IndexDecl) : Except Error Index := do
  let vendor ← i.vendor.mapM Vendor.ofDecl
  pure
    { ownName := i.name
      columns := i.columns.map fun c => ⟨c.name, c.size⟩
      vendor := vendor }

end Schemata
