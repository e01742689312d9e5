import Schemata.Dump
import Schemata.Script.Step

/-!
# Sessions

A session keeps schemas by name and works on them step by step. A step that fails leaves what it did
before the failure, and the session goes on. After each step the text of the schema that the step named
is shown, if it is not the text that was shown last.
-/

namespace Schemata

structure Session where
  schemas : Dictionary Schema := {}
  shown : Dictionary String := {}

namespace Session

open Script

/-- What a session finds: plugins and files. -/
structure Context where
  registry : Registry
  library : Library

structure Shown where
  result : Except StepError Answer
  /-- The text of the schema, where it changed. -/
  dump : Option String

def address (step : Json) : String :=
  (text? step "schema").getD "main"

def store {ε : Type} (name : String) (s : Schema) : Change ε Session Unit :=
  Change.modify fun session => { session with schemas := session.schemas.insert name s }

def onSchema {α : Type} (name : String) (c : Action Schema α) : Action Session α :=
  inside (·.schemas.get? name) (fun s session => { session with schemas := session.schemas.insert name s })
    "no such schema" c

/-- The position of the database that a step names, by default of the first one. -/
def databasePosition? (step : Json) (s : Schema) : Option Nat :=
  match text? step "db" with
  | some name => s.databases.findIdx? (·.name == name)
  | none => if s.databases.isEmpty then none else some 0

def onDatabase {α : Type} (step : Json) (c : Action Database α) : Action Schema α := do
  let s ← Change.get
  match databasePosition? step s with
  | none => broken "no such database"
  | some pos =>
    inside (·.databases[pos]?) (fun d s => { s with databases := s.databases.set pos d })
      "no such database" c

/-! ### Steps that make a schema -/

/-- Builds a schema and stores it; a failure stores nothing. -/
def storeBuilt (name : String) (c : Edit Unit Schema) : Action Session Answer := do
  let (s, _) ← edit (Change.starting () c)
  store name s
  pure .nothing

/-- A step that makes a schema, if it is one. -/
def makingStep? (x : Context) (step : Json) : Option (Action Session Answer) :=
  match text step "do" with
  | "new_schema" => some do
    store (address step) {}
    pure .nothing
  | "build" =>
    some (storeBuilt (address step)
      (Schema.build x.registry x.library ((text? step "location").map Path.mk)
        ((step.get? "tree").getD .null)))
  | "load" => some (storeBuilt (address step) (Schema.load x.registry x.library ⟨text step "path"⟩))
  | "clone" => some do
    let session ← Change.get
    match session.schemas.get? (text step "from") with
    | none => broken "no schema 'from'"
    | some s =>
      store (address step) s
      pure .nothing
  | _ => none

/-! ### Steps on a schema -/

def stepDatabase (step : Json) : Database where
  name := text step "name"
  nameSpace := text? step "namespace"
  settings := { heavyIndexing := isSet step "heavyIndexing" }

/-- A step on a schema, where `source` is the other schema that it names. -/
def schemaStep (x : Context) (step : Json) (source : Option Schema) : Action Schema Answer := do
  let s ← Change.get
  match text step "do", source with
  | "add_database", _ =>
    edit (Change.attempt (·.addDatabase (stepDatabase step)))
    pure .nothing
  | "join", some other =>
    edit (Schema.join other)
    pure .nothing
  | "add_external", some other =>
    edit (Schema.addInclude ⟨⟨text step "path"⟩, isSet step "referenceOnly", other⟩)
    pure .nothing
  | "check_names", _ =>
    ofExcept s.checkQualifiedNames
    pure .nothing
  | "finalize", _ =>
    let c ← ofExcept (stepConfig step)
    edit (Schema.finalizeWith x.registry c)
    pure .nothing
  | "view", _ => pure (.schema s)
  | "emittable", _ => pure (.pairs (s.emittableTables.map fun p => (p.1.name, p.2.name)))
  | _, _ => onDatabase step (databaseStep x.registry step)

/-- The other schema that a step names, which must exist if it names one. -/
def sourceSchema (step : Json) : Action Session (Option Schema) := do
  match text? step "from" with
  | none => pure none
  | some name =>
    let session ← Change.get
    match session.schemas.get? name with
    | none => broken "no schema 'from'"
    | some s => pure (some s)

def act (x : Context) (step : Json) : Action Session Answer :=
  match makingStep? x step with
  | some c => c
  | none => do
    let source ← sourceSchema step
    onSchema (address step) (schemaStep x step source)

/-! ### Running a session -/

/-- The text of the addressed schema where it was not shown last, and the session that has shown it. -/
def showChanged (name : String) (session : Session) : Option String × Session :=
  match session.schemas.get? name with
  | none => (none, session)
  | some s =>
    let dump := s.dump
    if session.shown.get? name = some dump then (none, session)
    else (some dump, { session with shown := session.shown.insert name dump })

/-- Runs steps one after another and gives the outcome of each, with all events. -/
def run (x : Context) (session : Session) : List Json → List Shown × List Event
  | [] => ([], [])
  | step :: rest =>
    let o := act x step session
    let (dump, session) := showChanged (address step) o.state
    let (later, events) := run x session rest
    (⟨o.result, dump⟩ :: later, o.log ++ events)

end Session

end Schemata
