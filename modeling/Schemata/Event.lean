import Schemata.Path
import Schemata.Text.Quoted

/-!
# Events

What building and finalizing report while they run, from warnings down to single steps.
-/

namespace Schemata

inductive Level where
  | warn
  | debug
  | trace
deriving DecidableEq, Repr, Inhabited

namespace Level

def label : Level → String
  | .warn => "WARN"
  | .debug => "DEBUG"
  | .trace => "TRACE"

/-- The rank of a level; higher ranks are less severe. -/
def rank : Level → Nat
  | .warn => 0
  | .debug => 1
  | .trace => 2

/-- Whether a log kept at this level shows events of another. -/
def shows (kept other : Level) : Bool :=
  other.rank ≤ kept.rank

end Level

inductive Event where
  | builtTable (table : String) (columns foreignKeys : Nat)
  | builtDatabase (database : String) (tables behaviors : Nat)
  | loadingInclude (path : Path)
  | includeLoadedBefore (path : Path)
  | mergedInclude (path : Path) (referenceOnly : Bool)
  | runningDatabaseBehavior (database behavior : String)
  | runningTableBehavior (table behavior : String)
  | addingTimestamp (table column : String)
  | addingArchive (source archive : String)
  | addedHeavyIndex (table : String) (columns : List String)
  | droppedIdMethod (table : String)
  | addingImplicitColumn (table column : String)
  | registeredReferrer (key target : String)
  | addedForeignKeyIndex (table index : String)
  | noPrimaryKey (table : String)
  | finalizedDatabase (database : String) (tables : Nat)
deriving DecidableEq, Repr, Inhabited

namespace Event

def level : Event → Level
  | .noPrimaryKey _ => .warn
  | .builtDatabase .. | .loadingInclude _ | .includeLoadedBefore _ | .mergedInclude ..
  | .runningDatabaseBehavior .. | .addingArchive .. | .finalizedDatabase .. => .debug
  | .builtTable .. | .runningTableBehavior .. | .addingTimestamp .. | .addedHeavyIndex ..
  | .droppedIdMethod _ | .addingImplicitColumn .. | .registeredReferrer ..
  | .addedForeignKeyIndex .. => .trace

/-- The event in words, followed by its fields. -/
def text : Event → String
  | .builtTable table columns foreignKeys =>
    s!"Built table table={table} columns={columns} foreign_keys={foreignKeys}"
  | .builtDatabase database tables behaviors =>
    s!"Built database database={database} tables={tables} behaviors={behaviors}"
  | .loadingInclude path => s!"Loading external schema path={path.text}"
  | .includeLoadedBefore path => s!"External schema already loaded path={path.text}"
  | .mergedInclude path referenceOnly =>
    s!"Merged external schema path={path.text} reference_only={referenceOnly}"
  | .runningDatabaseBehavior database behavior =>
    s!"Running database behavior database={database} behavior={behavior}"
  | .runningTableBehavior table behavior =>
    s!"Running table behavior table={table} behavior={behavior}"
  | .addingTimestamp table column => s!"Adding timestamp column table={table} column={column}"
  | .addingArchive source archive => s!"Adding archive table source={source} archive={archive}"
  | .addedHeavyIndex table columns =>
    s!"Added heavy index table={table} columns=" ++ Text.quotedList columns
  | .droppedIdMethod table => s!"No auto-increment column, id method set to none table={table}"
  | .addingImplicitColumn table column =>
    s!"Adding implicit foreign key column table={table} column={column}"
  | .registeredReferrer key target => s!"Registered referrer foreign_key={key} foreign_table={target}"
  | .addedForeignKeyIndex table index => s!"Added foreign key index table={table} index={index}"
  | .noPrimaryKey table => s!"Table has no primary key table={table}"
  | .finalizedDatabase database tables => s!"Finalized database database={database} tables={tables}"

def line (e : Event) : String :=
  e.level.label ++ " " ++ e.text

end Event

/-- The lines of a log that is kept at a level. -/
def logLines (kept : Level) (events : List Event) : List String :=
  (events.filter fun e => kept.shows e.level).map Event.line

end Schemata
