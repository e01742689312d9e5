import Schemata.Plugin

/-!
# Timestampable

Keeps the times of creation and of the last update of a row: the hook adds the two columns, and the
code that is generated for the table sets them and queries by them.
-/

namespace Schemata.Timestampable

/-- The column for the time of creation, unless it is switched off. -/
def createColumn? (b : Behavior) : Option String :=
  if b.flag "disable_created_at" then none else b.parameter? "create_column"

/-- The column for the time of the last update, unless it is switched off. -/
def updateColumn? (b : Behavior) : Option String :=
  if b.flag "disable_updated_at" then none else b.parameter? "update_column"

def timestampColumns (b : Behavior) : List String :=
  (createColumn? b).toList ++ (updateColumn? b).toList

/-- Adds a timestamp column, unless the table has a column of that name. -/
def addTimestamp (column : String) : Edit Table Unit := do
  let t ← Change.get
  if t.hasColumn column then pure ()
  else
    Change.report (.addingTimestamp t.name column)
    Change.attempt (·.addColumn { name := column, domain := { type := .timestamp } })

def tableHook (b : Behavior) (table : String) : Edit Database Unit := do
  let d ← Change.get
  match d.tables.findIdx? (·.name == table) with
  | some pos => Database.editAt pos (Change.forEach addTimestamp (timestampColumns b))
  | none => Change.fail (.reference (.missingTarget table d.name))

/-! ### Code -/

/-- The statement that sets a column to the current time unless it was set. -/
def touch (t : Table) (column : String) : String :=
  "if !self.is_column_modified(" ++ t.codeName ++ "TableMap::" ++ Column.constantFor column
    ++ ") \x7b self.set_" ++ Text.snakeCase column ++ "(now()); \x7d"

/-- Lines of code, or none without any. -/
def lines? (lines : List String) : Option String :=
  if lines.isEmpty then none else some ("\n".intercalate lines)

def objectCode : CodeModifier where
  hooks := ["pre_insert", "pre_update"]
  render hook b t :=
    match hook with
    | "pre_insert" => lines? ((timestampColumns b).map (touch t))
    | "pre_update" => lines? ((updateColumn? b).toList.map (touch t))
    | _ => none

def queryCode : CodeModifier where
  hooks := ["query_methods"]
  render hook b _ :=
    match hook with
    | "query_methods" =>
      lines? (
        (updateColumn? b).toList.map (fun column =>
          "fn recently_updated(self, days: u32) -> Self \x7b self.filter_by_"
            ++ Text.snakeCase column ++ "_since(days) \x7d")
        ++ (createColumn? b).toList.map fun column =>
          "fn last_created_first(self) -> Self \x7b self.order_by_"
            ++ Text.snakeCase column ++ "_desc() \x7d")
    | _ => none

def plugin : Plugin where
  defaults :=
    [("create_column", "created_at"), ("update_column", "updated_at"),
      ("disable_created_at", "false"), ("disable_updated_at", "false")]
  tableHook := some tableHook
  code
    | .object => some objectCode
    | .query => some queryCode
    | .tableMap => none

end Schemata.Timestampable
