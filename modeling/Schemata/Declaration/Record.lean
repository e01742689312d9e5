import Schemata.Declaration
import Schemata.Json.Shape

/-!
# Declarations as JSON records

The fields of each kind of declaration, in the order in which an array lists them, and how each one is
read. A vendor block or an id parameter may stand alone or in a list, an index column may be its bare
name, and behaviors are a list of records or a map from names to parameters.
-/

namespace Schemata

open RecordField Shape

namespace VendorDecl

def record : RecordKind VendorDecl where
  name := "VendorTree"
  fields := [needed "type", defaulted "parameters"]
  blank := { kind := "" }
  put name j v := do
    match name with
    | "type" => pure { v with kind := ← text j }
    | "parameters" => pure { v with parameters := ← members j }
    | _ => pure v

end VendorDecl

namespace BehaviorDecl

def record : RecordKind BehaviorDecl where
  name := "BehaviorTree"
  fields := [needed "name", defaulted "id", defaulted "parameters"]
  blank := { name := "" }
  put name j b := do
    match name with
    | "name" => pure { b with name := ← text j }
    | "id" => pure { b with id := ← nullable text j }
    | "parameters" => pure { b with parameters := ← members j }
    | _ => pure b

/-- A behavior of a map: whatever is not an object stands for no parameters. -/
def ofMember (m : String × Json) : BehaviorDecl :=
  match m.2 with
  | .obj ms => { name := m.1, parameters := ms }
  | _ => { name := m.1 }

/-- Behaviors as a list of records, else as a map in its order. -/
def listShape : Shape (List BehaviorDecl) :=
  either "BehaviorsTree" (list record.shape) fun j => (members j).map (·.map ofMember)

end BehaviorDecl

namespace DomainDecl

def record : RecordKind DomainDecl where
  name := "DomainTree"
  fields :=
    [needed "name", needed "type", defaulted "sqlType", defaulted "size", defaulted "scale",
      defaulted "defaultValue", defaulted "defaultExpr"]
  blank := { name := "", type := "" }
  put name j d := do
    match name with
    | "name" => pure { d with name := ← text j }
    | "type" => pure { d with type := ← text j }
    | "sqlType" => pure { d with sqlType := ← nullable text j }
    | "size" => pure { d with size := ← nullable word32 j }
    | "scale" => pure { d with scale := ← nullable word32 j }
    | "defaultValue" => pure { d with defaultValue := ← nullable any j }
    | "defaultExpr" => pure { d with defaultExpr := ← nullable text j }
    | _ => pure d

end DomainDecl

namespace InheritanceDecl

def record : RecordKind InheritanceDecl where
  name := "InheritanceTree"
  fields := [needed "key", ⟨"className", some "class", true⟩, defaulted "extends"]
  blank := { key := .null, className := "" }
  put name j i := do
    match name with
    | "key" => pure { i with key := ← any j }
    | "className" => pure { i with className := ← text j }
    | "extends" => pure { i with ancestor := ← nullable text j }
    | _ => pure i

end InheritanceDecl

namespace ColumnDecl

def record : RecordKind ColumnDecl where
  name := "ColumnTree"
  fields :=
    [needed "name", defaulted "columnName", defaulted "phpName", defaulted "description",
      defaulted "type", defaulted "sqlType", defaulted "size", defaulted "scale",
      defaulted "defaultValue", defaulted "defaultExpr", defaulted "domain", defaulted "primaryKey",
      defaulted "autoIncrement", defaulted "required", defaulted "lazyLoad",
      defaulted "primaryString", defaulted "inheritance", defaulted "vendor"]
  blank := { name := "" }
  put name j c := do
    match name with
    | "name" => pure { c with name := ← text j }
    | "columnName" => pure { c with sqlName := ← nullable text j }
    | "phpName" => pure { c with codeName := ← nullable text j }
    | "description" => pure { c with description := ← nullable text j }
    | "type" => pure { c with type := ← nullable text j }
    | "sqlType" => pure { c with sqlType := ← nullable text j }
    | "size" => pure { c with size := ← nullable word32 j }
    | "scale" => pure { c with scale := ← nullable word32 j }
    | "defaultValue" => pure { c with defaultValue := ← nullable any j }
    | "defaultExpr" => pure { c with defaultExpr := ← nullable text j }
    | "domain" => pure { c with domain := ← nullable text j }
    | "primaryKey" => pure { c with primaryKey := ← flag j }
    | "autoIncrement" => pure { c with autoIncrement := ← flag j }
    | "required" => pure { c with required := ← flag j }
    | "lazyLoad" => pure { c with lazyLoad := ← flag j }
    | "primaryString" => pure { c with primaryString := ← flag j }
    | "inheritance" => pure { c with inheritance := ← list InheritanceDecl.record.shape j }
    | "vendor" => pure { c with vendor := ← oneOrMany VendorDecl.record.shape j }
    | _ => pure c

end ColumnDecl

namespace ReferenceDecl

def record : RecordKind ReferenceDecl where
  name := "ReferenceTree"
  fields := [needed "local", needed "foreign"]
  blank := { localColumn := "", foreignColumn := "" }
  put name j r := do
    match name with
    | "local" => pure { r with localColumn := ← text j }
    | "foreign" => pure { r with foreignColumn := ← text j }
    | _ => pure r

end ReferenceDecl

namespace ForeignKeyDecl

def record : RecordKind ForeignKeyDecl where
  name := "ForeignKeyTree"
  fields :=
    [defaulted "name", needed "foreignTable", defaulted "foreignSchema", defaulted "phpName",
      defaulted "refPhpName", defaulted "onDelete", defaulted "onUpdate", defaulted "skipSql",
      defaulted "defaultJoin", defaulted "references", defaulted "vendor"]
  blank := { foreignTable := "" }
  put name j k := do
    match name with
    | "name" => pure { k with name := ← nullable text j }
    | "foreignTable" => pure { k with foreignTable := ← text j }
    | "foreignSchema" => pure { k with foreignSchema := ← nullable text j }
    | "phpName" => pure { k with codeName := ← nullable text j }
    | "refPhpName" => pure { k with reverseCodeName := ← nullable text j }
    | "onDelete" => pure { k with onDelete := ← nullable text j }
    | "onUpdate" => pure { k with onUpdate := ← nullable text j }
    | "skipSql" => pure { k with skipSql := ← flag j }
    | "defaultJoin" => pure { k with defaultJoin := ← nullable text j }
    | "references" => pure { k with references := ← list ReferenceDecl.record.shape j }
    | "vendor" => pure { k with vendor := ← oneOrMany VendorDecl.record.shape j }
    | _ => pure k

end ForeignKeyDecl

namespace IndexColumnDecl

def record : RecordKind IndexColumnDecl where
  name := "IndexColumnTree"
  fields := [needed "name", defaulted "size"]
  blank := { name := "" }
  put name j c := do
    match name with
    | "name" => pure { c with name := ← text j }
    | "size" => pure { c with size := ← nullable word32 j }
    | _ => pure c

/-- A bare name or an object. -/
def shape : Shape IndexColumnDecl :=
  either "IndexColumnTree" (fun j => (text j).map fun name => { name := name }) record.objectShape

end IndexColumnDecl

namespace IndexDecl

def record : RecordKind IndexDecl where
  name := "IndexTree"
  fields := [defaulted "name", needed "columns", defaulted "vendor"]
  blank := {}
  put name j i := do
    match name with
    | "name" => pure { i with name := ← nullable text j }
    | "columns" => pure { i with columns := ← list IndexColumnDecl.shape j }
    | "vendor" => pure { i with vendor := ← oneOrMany VendorDecl.record.shape j }
    | _ => pure i

end IndexDecl

namespace IdParameterDecl

def record : RecordKind IdParameterDecl where
  name := "IdMethodParameterTree"
  fields := [defaulted "name", needed "value"]
  blank := { value := .null }
  put name j p := do
    match name with
    | "name" => pure { p with name := ← nullable text j }
    | "value" => pure { p with value := ← any j }
    | _ => pure p

end IdParameterDecl

namespace TableDecl

def record : RecordKind TableDecl where
  name := "TableTree"
  fields :=
    [needed "name", defaulted "tableName", defaulted "phpName", defaulted "namespace",
      defaulted "schema", defaulted "description", defaulted "idMethod",
      defaulted "idMethodParameter", defaulted "heavyIndexing", defaulted "identifierQuoting",
      defaulted "defaultStringFormat", defaulted "defaultAccessorVisibility",
      defaulted "defaultMutatorVisibility", defaulted "forReferenceOnly", defaulted "skipSql",
      defaulted "readOnly", defaulted "abstract", defaulted "isCrossRef", defaulted "allowPkInsert",
      defaulted "columns", defaulted "foreignKeys", defaulted "indices", defaulted "uniques",
      defaulted "behaviors", defaulted "vendor"]
  blank := { name := "" }
  put name j t := do
    match name with
    | "name" => pure { t with name := ← text j }
    | "tableName" => pure { t with sqlName := ← nullable text j }
    | "phpName" => pure { t with codeName := ← nullable text j }
    | "namespace" => pure { t with nameSpace := ← nullable text j }
    | "schema" => pure { t with schema := ← nullable text j }
    | "description" => pure { t with description := ← nullable text j }
    | "idMethod" => pure { t with idMethod := ← nullable text j }
    | "idMethodParameter" => pure { t with idParameters := ← oneOrMany IdParameterDecl.record.shape j }
    | "heavyIndexing" => pure { t with heavyIndexing := ← nullable flag j }
    | "identifierQuoting" => pure { t with identifierQuoting := ← nullable flag j }
    | "defaultStringFormat" => pure { t with stringFormat := ← nullable text j }
    | "defaultAccessorVisibility" => pure { t with accessorVisibility := ← nullable text j }
    | "defaultMutatorVisibility" => pure { t with mutatorVisibility := ← nullable text j }
    | "forReferenceOnly" => pure { t with referenceOnly := ← flag j }
    | "skipSql" => pure { t with skipSql := ← flag j }
    | "readOnly" => pure { t with readOnly := ← flag j }
    | "abstract" => pure { t with isAbstract := ← flag j }
    | "isCrossRef" => pure { t with isCrossRef := ← flag j }
    | "allowPkInsert" => pure { t with allowKeyInsert := ← flag j }
    | "columns" => pure { t with columns := ← list ColumnDecl.record.shape j }
    | "foreignKeys" => pure { t with foreignKeys := ← list ForeignKeyDecl.record.shape j }
    | "indices" => pure { t with indices := ← list IndexDecl.record.shape j }
    | "uniques" => pure { t with uniques := ← list IndexDecl.record.shape j }
    | "behaviors" => pure { t with behaviors := ← BehaviorDecl.listShape j }
    | "vendor" => pure { t with vendor := ← oneOrMany VendorDecl.record.shape j }
    | _ => pure t

end TableDecl

namespace IncludeDecl

def record : RecordKind IncludeDecl where
  name := "ExternalSchemaTree"
  fields := [needed "filename", defaulted "referenceOnly"]
  blank := { filename := "" }
  put name j i := do
    match name with
    | "filename" => pure { i with filename := ← text j }
    | "referenceOnly" => pure { i with referenceOnly := ← flag j }
    | _ => pure i

end IncludeDecl

namespace SchemaDecl

def record : RecordKind SchemaDecl where
  name := "SchemaTree"
  fields :=
    [needed "name", defaulted "defaultIdMethod", defaulted "namespace",
      defaulted "identifierQuoting", defaulted "defaultStringFormat", defaulted "heavyIndexing",
      defaulted "schema", defaulted "defaultAccessorVisibility",
      defaulted "defaultMutatorVisibility", ⟨"external-schemas", some "externalSchemas", false⟩,
      defaulted "behaviors", defaulted "vendor", defaulted "domains", defaulted "tables"]
  blank := { name := "" }
  put name j s := do
    match name with
    | "name" => pure { s with name := ← text j }
    | "defaultIdMethod" => pure { s with idMethod := ← nullable text j }
    | "namespace" => pure { s with nameSpace := ← nullable text j }
    | "identifierQuoting" => pure { s with identifierQuoting := ← nullable flag j }
    | "defaultStringFormat" => pure { s with stringFormat := ← nullable text j }
    | "heavyIndexing" => pure { s with heavyIndexing := ← nullable flag j }
    | "schema" => pure { s with schema := ← nullable text j }
    | "defaultAccessorVisibility" => pure { s with accessorVisibility := ← nullable text j }
    | "defaultMutatorVisibility" => pure { s with mutatorVisibility := ← nullable text j }
    | "external-schemas" => pure { s with includes := ← list IncludeDecl.record.shape j }
    | "behaviors" => pure { s with behaviors := ← BehaviorDecl.listShape j }
    | "vendor" => pure { s with vendor := ← oneOrMany VendorDecl.record.shape j }
    | "domains" => pure { s with domains := ← list DomainDecl.record.shape j }
    | "tables" => pure { s with tables := ← list TableDecl.record.shape j }
    | _ => pure s

end SchemaDecl

end Schemata
