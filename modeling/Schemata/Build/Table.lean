import Schemata.Build.Column
import Schemata.Plugin

/-!
# Tables and databases from declarations

A table is built by adding its parts one after another, so that the rules of a table hold for what is
declared as they hold for what is added later. The first broken rule is the error.
-/

namespace Schemata

/-- A behavior made by the registry, with its own id and parameters. -/
def Behavior.ofDecl (r : Registry) (b : BehaviorDecl) : Except Error Behavior := do
  let made ← r.create b.name
  let parameters ← b.parameters.mapM fun p => do
    pure (p.1, ← readScalar p.2 (.behaviorParameterNotScalar p.1 b.name))
  pure (parameters.foldl (fun made p => made.setParameter p.1 p.2) { made with id := b.id.getD made.id })

def addDeclared {α β σ : Type} (read : α → Except Error β) (add : σ → β → Except Error σ) (s : σ) :
    List α → Except Error σ
  | [] => .ok s
  | a :: rest => do addDeclared read add (← add s (← read a)) rest

def OwnSettings.ofDecl (t : TableDecl) : Except Error OwnSettings := do
  let idMethod ← readOptional readIdMethod t.idMethod
  let stringFormat ← readOptional readStringFormat t.stringFormat
  let accessorVisibility ← readOptional readVisibility t.accessorVisibility
  let mutatorVisibility ← readOptional readVisibility t.mutatorVisibility
  pure
    { idMethod := idMethod
      heavyIndexing := t.heavyIndexing
      identifierQuoting := t.identifierQuoting
      stringFormat := stringFormat
      accessorVisibility := accessorVisibility
      mutatorVisibility := mutatorVisibility }

def IdParameter.ofDecl (table : String) (p : IdParameterDecl) : Except Error IdParameter := do
  pure ⟨p.name, ← readScalar p.value (.idParameterNotScalar table)⟩

def Table.head (referenceOnly : Bool) (t : TableDecl) (settings : OwnSettings) : Table :=
  { name := t.name
    ownSqlName := t.sqlName
    ownCodeName := t.codeName
    nameSpace := t.nameSpace
    schema := t.schema
    description := t.description
    settings := settings
    referenceOnly := t.referenceOnly || referenceOnly
    skipSql := t.skipSql
    readOnly := t.readOnly
    isAbstract := t.isAbstract
    isCrossRef := t.isCrossRef
    allowKeyInsert := t.allowKeyInsert }

/-- A table of a database whose domains are known. -/
def Table.ofDecl (r : Registry) (d : Database) (referenceOnly : Bool) (t : TableDecl) :
    Except Error Table := do
  let settings ← OwnSettings.ofDecl t
  let table := Table.head referenceOnly t settings
  let table ← addDeclared (Column.ofDecl d t.name) Table.addColumn table t.columns
  let table ← addDeclared (ForeignKey.ofDecl t.name) Table.addForeignKey table t.foreignKeys
  let table ← addDeclared Index.ofDecl Table.addIndex table t.indices
  let table ← addDeclared Index.ofDecl Table.addUnique table t.uniques
  let table ← addDeclared (Behavior.ofDecl r) Table.addBehavior table t.behaviors
  let vendor ← t.vendor.mapM Vendor.ofDecl
  let idParameters ← t.idParameters.mapM (IdParameter.ofDecl t.name)
  pure { table with vendor := vendor, idParameters := idParameters }

def Settings.ofDecl (s : SchemaDecl) : Except Error Settings := do
  let idMethod ← readOptional readIdMethod s.idMethod
  let stringFormat ← readOptional readStringFormat s.stringFormat
  let accessorVisibility ← readOptional readVisibility s.accessorVisibility
  let mutatorVisibility ← readOptional readVisibility s.mutatorVisibility
  let base : Settings := {}
  pure
    { idMethod := idMethod.getD base.idMethod
      heavyIndexing := s.heavyIndexing.getD base.heavyIndexing
      identifierQuoting := s.identifierQuoting.getD base.identifierQuoting
      stringFormat := stringFormat.getD base.stringFormat
      accessorVisibility := accessorVisibility.getD base.accessorVisibility
      mutatorVisibility := mutatorVisibility.getD base.mutatorVisibility }

/-- The declared database with its settings and domains, without vendor blocks, behaviors and tables. -/
def Database.head (s : SchemaDecl) : Except Error Database := do
  let settings ← Settings.ofDecl s
  let bare : Database :=
    { name := s.name, settings := settings, nameSpace := s.nameSpace, schema := s.schema }
  addDeclared Domain.ofDecl Database.addDomain bare s.domains

def Database.addSettings (r : Registry) (s : SchemaDecl) (d : Database) : Except Error Database := do
  let d ← addDeclared (Behavior.ofDecl r) Database.addBehavior d s.behaviors
  let vendor ← s.vendor.mapM Vendor.ofDecl
  pure { d with vendor := vendor }

/-- Builds a table and adds it to the database. -/
def Database.addDeclaredTable (r : Registry) (referenceOnly : Bool) (t : TableDecl) :
    Edit Database Unit := do
  let d ← Change.get
  let table ← Change.ofExcept (Table.ofDecl r d referenceOnly t)
  Change.report (.builtTable table.name table.columns.length table.foreignKeys.length)
  Change.attempt (·.addTable table)

def Database.addDeclaredTables (r : Registry) (referenceOnly : Bool) (ts : List TableDecl) :
    Edit Database Unit := do
  Change.forEach (Database.addDeclaredTable r referenceOnly) ts
  let d ← Change.get
  Change.report (.builtDatabase d.name d.tables.length d.behaviors.length)

end Schemata
