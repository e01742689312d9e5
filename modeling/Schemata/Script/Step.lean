import Schemata.Build.Schema
import Schemata.Finalize

/-!
# Steps

A step is one request to a database, written as a JSON object whose member `do` says what is wanted:
add something, remove it, look it up, run a hook, finalize. Steps are what scripts and sessions are
made of. A step either fails with an error of the model or is no step at all.
-/

namespace Schemata.Script

inductive StepError where
  /-- The step asks for something that cannot be asked for. -/
  | broken (text : String)
  | failed (e : Error)
deriving DecidableEq, Repr, Inhabited

inductive Answer where
  | nothing
  | flag (b : Option Bool)
  | count (n : Option Nat)
  | names (ns : List String)
  | pairs (ps : List (String × String))
  | domain (m : Option Domain)
  | behavior (b : Option Behavior)
  | column (c : Option Column)
  /-- A foreign key and the table that it was taken from. -/
  | foreignKey (k : Option (Table × ForeignKey))
  | indices (is : List Index)
  | modifiers (t : Table)
  | table (t : Table)
  | database (d : Database)
  | schema (s : Schema)

/-- A change that a step makes. -/
abbrev Action (σ α : Type) : Type := Change StepError σ α

/-! ### Reading the members of a step -/

def text? (step : Json) (key : String) : Option String :=
  match step.get? key with
  | some (.str s) => some s
  | _ => none

def text (step : Json) (key : String) : String :=
  (text? step key).getD ""

def isSet (step : Json) (key : String) : Bool :=
  match step.get? key with
  | some (.bool b) => b
  | _ => false

def boolean? (step : Json) (key : String) : Option Bool :=
  match step.get? key with
  | some (.bool b) => some b
  | _ => none

def size? (step : Json) (key : String) : Option Nat :=
  match step.get? key with
  | some (.num (.int n)) => if 0 ≤ n then some n.toNat else none
  | _ => none

def items (step : Json) (key : String) : List Json :=
  match step.get? key with
  | some (.arr js) => js
  | _ => []

def membersOf (step : Json) (key : String) : List (String × Json) :=
  match step.get? key with
  | some (.obj ms) => ms
  | _ => []

def textOf : Json → String
  | .str s => s
  | _ => ""

def texts (step : Json) (key : String) : List String :=
  (items step key).map textOf

/-! ### Building blocks -/

def broken {σ α : Type} (reason : String) : Action σ α :=
  Change.fail (.broken reason)

def edit {σ α : Type} (c : Edit σ α) : Action σ α :=
  Change.mapError .failed c

def ofExcept {σ α : Type} (x : Except Error α) : Action σ α :=
  edit (Change.ofExcept x)

/-- An action on a part of the state that may be missing. -/
def inside {σ τ α : Type} (part? : σ → Option τ) (put : τ → σ → σ) (missing : String) (c : Action τ α) :
    Action σ α := fun s =>
  match part? s with
  | some t => Change.within (fun _ => t) put c s
  | none => broken missing s

def onTable {α : Type} (name : String) (c : Action Table α) : Action Database α :=
  inside (·.table? name) (fun t d => d.modifyTable name fun _ => t) "no such table" c

/-- A behavior made by the registry from its description. -/
def behaviorOf (r : Registry) (j : Json) : Except Error Behavior := do
  let b ← r.create (text j "name")
  let b := { b with id := (text? j "id").getD b.id }
  pure ((membersOf j "parameters").foldl (fun b p => b.setParameter p.1 (textOf p.2)) b)

/-- The behavior that a step describes. -/
def stepBehavior (r : Registry) (step : Json) : Except Error Behavior :=
  behaviorOf r ((step.get? "behavior").getD .null)

/-- The configuration that a step gives. -/
def stepConfig (step : Json) : Except Error Config :=
  Config.ofJson ((step.get? "config").getD .null)

/-- An index over the columns that a step lists, each by its name or by its name and size. -/
def stepIndex (step : Json) : Index where
  ownName := text? step "name"
  columns := (items step "columns").map fun j =>
    match j with
    | .obj _ => ⟨text j "name", size? j "size"⟩
    | _ => ⟨textOf j, none⟩

/-! ### Steps on a table -/

def stepColumn (step : Json) (type : ColumnType) : Column where
  name := text step "name"
  domain :=
    { type := type
      size := size? step "size"
      scale := size? step "scale"
      default :=
        match (step.get? "value").bind Json.scalarText?, text? step "expr" with
        | some v, _ => some (.value v)
        | none, some e => some (.expression e)
        | none, none => none }
  primaryKey := isSet step "primary"
  autoIncrement := isSet step "autoIncrement"
  notNull := isSet step "primary" || isSet step "required"
  primaryString := isSet step "primaryString"

def addColumn (step : Json) : Action Table Answer := do
  match ColumnType.ofText? ((text? step "type").getD "varchar") with
  | none => broken "unknown type"
  | some type =>
    edit (Change.attempt (·.addColumn (stepColumn step type)))
    pure .nothing

def stepAction {σ : Type} (step : Json) (key : String) : Action σ ReferentialAction :=
  match text? step key with
  | none => pure .none
  | some s =>
    match ReferentialAction.ofText? s with
    | some action => pure action
    | none => broken "unknown action"

/-- The pair of columns in an array of two. -/
def referenceOf : Json → Reference
  | .arr (a :: b :: _) => ⟨textOf a, textOf b⟩
  | _ => ⟨"", ""⟩

def addForeignKey (step : Json) : Action Table Answer := do
  let onDelete ← stepAction step "onDelete"
  let onUpdate ← stepAction step "onUpdate"
  let k : ForeignKey :=
    { name := text step "name"
      target := text step "foreignTable"
      targetSchema := text? step "foreignSchema"
      codeName := text? step "phpName"
      reverseCodeName := text? step "refPhpName"
      onDelete := onDelete
      onUpdate := onUpdate
      references := (items step "references").map referenceOf }
  edit (Change.attempt (·.addForeignKey k))
  pure .nothing

def removeForeignKey (step : Json) : Action Table Answer := do
  let found := (← Change.get).foreignKey? (text step "name")
  Change.modify (·.removeForeignKey (text step "name"))
  let t ← Change.get
  pure (.foreignKey (found.map fun k => (t, k)))

def addMissingIndex (step : Json) : Action Table Answer := do
  let t ← Change.get
  edit (Change.attempt (·.addMissingIndex (stepIndex step)))
  pure (.flag (some !(t.hasIndexOver (stepIndex step).columnNames)))

def takeUniques : Action Table Answer := do
  let t ← Change.get
  Change.modify fun t => { t with uniques := [] }
  pure (.indices t.uniques)

def removeBehavior (step : Json) : Action Table Answer := do
  let found := (← Change.get).behavior? (text step "id")
  Change.modify (·.removeBehavior (text step "id"))
  pure (.behavior found)

def onColumn (step : Json) (c : Action Column Answer) : Action Table Answer :=
  inside (·.column? (text step "name")) (fun c t => t.modifyColumn (text step "name") fun _ => c)
    "no such column" c

def addClass (step : Json) : Action Column Answer := do
  edit (Change.attempt (·.addClass ⟨text step "key", text step "class", text? step "extends"⟩))
  pure .nothing

def setColumn (step : Json) : Action Column Answer := do
  let on := isSet step "value"
  match text step "field" with
  | "primaryKey" => Change.modify ({ · with primaryKey := on })
  | "autoIncrement" => Change.modify ({ · with autoIncrement := on })
  | _ => broken "unknown field"
  pure .nothing

def setTable (step : Json) : Action Table Answer := do
  let value := text? step "value"
  match text step "field" with
  | "schema" => Change.modify ({ · with schema := value })
  | "namespace" => Change.modify ({ · with nameSpace := value })
  | "sqlName" => Change.modify ({ · with ownSqlName := value })
  | "phpName" => Change.modify ({ · with ownCodeName := value })
  | "name" => Change.modify ({ · with name := value.getD "" })
  | "heavyIndexing" =>
    Change.modify fun t => { t with settings := { t.settings with heavyIndexing := boolean? step "value" } }
  | "forReferenceOnly" => Change.modify ({ · with referenceOnly := isSet step "value" })
  | _ => broken "unknown field"
  pure .nothing

def tableStep (r : Registry) (step : Json) : Action Table Answer := do
  let t ← Change.get
  match text step "do" with
  | "add_column" => addColumn step
  | "add_foreign_key" => addForeignKey step
  | "remove_foreign_key" => removeForeignKey step
  | "add_index" =>
    edit (Change.attempt (·.addIndex (stepIndex step)))
    pure .nothing
  | "add_index_if_missing" => addMissingIndex step
  | "add_unique" =>
    edit (Change.attempt (·.addUnique (stepIndex step)))
    pure .nothing
  | "take_uniques" => takeUniques
  | "covers" => pure (.flag (some (t.coversColumns (texts step "columns"))))
  | "add_behavior" =>
    let b ← ofExcept (stepBehavior r step)
    edit (Change.attempt (·.addBehavior b))
    pure .nothing
  | "remove_behavior" => removeBehavior step
  | "has_behavior" => pure (.flag (some (t.behavior? (text step "id")).isSome))
  | "require_pk" =>
    let pk ← ofExcept t.requirePrimaryKey
    pure (.names (pk.map (·.name)))
  | "table" => pure (.table t)
  | "column" => pure (.column (t.column? (text step "name")))
  | "modifiers" => pure (.modifiers t)
  | "flag" => pure (.flag ((t.behavior? (text step "id")).map (·.flag (text step "name"))))
  | "has_referrer" =>
    let k : KeyId := ⟨text step "fkTable", text step "fkName"⟩
    pure (.flag ((t.column? (text step "name")).map fun c => decide (k ∈ c.referrers)))
  | "add_inheritance" => onColumn step (addClass step)
  | "set_column" => onColumn step (setColumn step)
  | "set_table" => setTable step
  | _ => broken "unknown step"

/-! ### Steps on a database -/

/-- Builds the table that a step declares in a database of its own and adds it. -/
def addTable (r : Registry) (step : Json) : Action Database Answer := do
  let d ← Change.get
  let tree := .obj [("name", .str d.name), ("tables", .arr [(step.get? "tree").getD .null])]
  let (built, _) ← edit (Change.starting () (Schema.build r .empty none tree))
  edit (Change.forEach (fun t => Change.attempt (·.addTable t)) (built.databases.flatMap (·.tables)))
  pure .nothing

def addDomain (step : Json) : Action Database Answer := do
  match ColumnType.ofText? (text step "type") with
  | none => broken "unknown type"
  | some type =>
    edit (Change.attempt (·.addDomain { name := text? step "name", type := type }))
    let d ← Change.get
    pure (.count (some d.domains.length))

def removeDatabaseBehavior (step : Json) : Action Database Answer := do
  let found := (← Change.get).behavior? (text step "id")
  Change.modify (·.removeBehavior (text step "id"))
  pure (.behavior found)

def setDatabase (step : Json) : Action Database Answer := do
  match text step "field" with
  | "namespace" => Change.modify ({ · with nameSpace := text? step "value" })
  | "name" => Change.modify ({ · with name := text step "value" })
  | "heavyIndexing" =>
    Change.modify fun d => { d with settings := { d.settings with heavyIndexing := isSet step "value" } }
  | _ => broken "unknown field"
  pure .nothing

def reportedError (kind message : String) : Error :=
  match kind with
  | "Reference" => .reference (.reported message)
  | "SchemaLoad" => .load ⟨"hook"⟩ (.reported message)
  | "Constraint" => .constraint (.reported message)
  | _ => .configuration (.reported message)

/-- Adds a copy of a table under the name that a step gives. -/
def duplicate (step : Json) : Action Database Answer := do
  let d ← Change.get
  match d.table? (text step "table") with
  | none => broken "no such table"
  | some t =>
    let copy := t.duplicate (text step "to")
    edit (Change.attempt (·.addTable copy))
    pure (.table copy)

/-- Runs a hook with a behavior that is attached to nothing, if its plugin has the hook. -/
def runHook (hook? : Option (Edit Database Unit)) : Action Database Answer := do
  match hook? with
  | none => pure (.flag (some false))
  | some hook =>
    edit hook
    pure (.flag (some true))

def databaseStep (r : Registry) (step : Json) : Action Database Answer := do
  let d ← Change.get
  match text step "do" with
  | "finalize_database" =>
    let c ← ofExcept (stepConfig step)
    let _ ← edit (Database.finalize settleLimit r c.platform)
    pure .nothing
  | "add_table" => addTable r step
  | "database" => pure (.database d)
  | "table_names" => pure (.names d.tableNames)
  | "table_position" => pure (.count (d.position? (text step "name")))
  | "add_domain" => addDomain step
  | "domain" => pure (.domain (d.domain? (text step "name")))
  | "add_db_behavior" =>
    let b ← ofExcept (stepBehavior r step)
    edit (Change.attempt (·.addBehavior b))
    pure .nothing
  | "remove_db_behavior" => removeDatabaseBehavior step
  | "set_db" => setDatabase step
  | "run_hook" =>
    let b ← ofExcept (stepBehavior r step)
    runHook ((r.tableHook? b).map fun hook => hook b (text step "table"))
  | "run_db_hook" =>
    let b ← ofExcept (stepBehavior r step)
    runHook ((r.databaseHook? b).map fun hook => hook b)
  | "fail" => edit (Change.fail (reportedError (text step "kind") (text step "message")))
  | "duplicate" => duplicate step
  | _ => onTable (text step "table") (tableStep r step)

end Schemata.Script
