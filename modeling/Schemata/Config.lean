import Schemata.Error
import Schemata.Platform

/-!
# Configuration

What the user of the generator chooses: a platform, its default engine, and whether every database is
indexed heavily. Everything has a default.
-/

namespace Schemata

structure Config where
  kind : PlatformKind := .generic
  heavyIndexing : Bool := false
  tableType : String := defaultTableType
deriving DecidableEq, Repr, Inhabited

namespace Config

open RecordField Shape

def platformShape : Shape PlatformKind := fun j => do
  let name ← text j
  match PlatformKind.ofText? name with
  | some kind => pure kind
  | none => throw (.unknownPlatform name)

def generatorRecord : RecordKind (PlatformKind × Bool) where
  name := "GeneratorSection"
  fields := [defaulted "platform", defaulted "heavyIndexing"]
  blank := (.generic, false)
  put name j g := do
    match name with
    | "platform" => pure (← platformShape j, g.2)
    | "heavyIndexing" => pure (g.1, ← flag j)
    | _ => pure g

def mysqlRecord : RecordKind String where
  name := "MysqlSection"
  fields := [defaulted "tableType"]
  blank := defaultTableType
  put name j t := do
    match name with
    | "tableType" => text j
    | _ => pure t

def adaptersRecord : RecordKind String where
  name := "AdaptersSection"
  fields := [defaulted "mysql"]
  blank := defaultTableType
  put name j t := do
    match name with
    | "mysql" => mysqlRecord.shape j
    | _ => pure t

def databaseRecord : RecordKind String where
  name := "DatabaseSection"
  fields := [defaulted "adapters"]
  blank := defaultTableType
  put name j t := do
    match name with
    | "adapters" => adaptersRecord.shape j
    | _ => pure t

def record : RecordKind Config where
  name := "GeneratorConfig"
  fields := [defaulted "generator", defaulted "database"]
  blank := {}
  put name j c := do
    match name with
    | "generator" =>
      let (kind, heavy) ← generatorRecord.shape j
      pure { c with kind := kind, heavyIndexing := heavy }
    | "database" => pure { c with tableType := ← databaseRecord.shape j }
    | _ => pure c

/-- The configuration in a JSON value, where null stands for the defaults. -/
def ofJson : Json → Except Error Config
  | .null => .ok {}
  | j => (record.shape j).mapError fun e => .configuration (.misshapen e)

def platform (c : Config) : Platform :=
  match c.kind with
  | .mysql => .mysql c.tableType
  | kind => .plain kind

end Config

end Schemata
