import Schemata.FileFault
import Schemata.Json.Fault
import Schemata.Json.Shape
import Schemata.Path

/-!
# Errors

Everything that stops building or finalizing a schema, by kind and cause. A cause carries the names
that its wording shows; all wording is in this module.
-/

namespace Schemata

inductive IndexKind where
  | index
  | unique
deriving DecidableEq, Repr, Inhabited

def IndexKind.label : IndexKind → String
  | .index => "index"
  | .unique => "unique constraint"

/-- The part of a generated name that tells the kinds apart. -/
def IndexKind.marker : IndexKind → String
  | .index => "i"
  | .unique => "u"

inductive BehaviorOwner where
  | database (name : String)
  | table (name : String)
deriving DecidableEq, Repr, Inhabited

def BehaviorOwner.label : BehaviorOwner → String
  | .database name => s!"database '{name}'"
  | .table name => s!"table '{name}'"

inductive DefaultOwner where
  | domain (name : String)
  | column (table name : String)
deriving DecidableEq, Repr, Inhabited

def DefaultOwner.label : DefaultOwner → String
  | .domain name => s!"domain '{name}'"
  | .column table name => s!"column '{table}.{name}'"

/-- A name that leads nowhere. -/
inductive ReferenceError where
  | unknownDomain (table column domain : String)
  | unregisteredBehavior (name : String) (known : List String)
  | unknownIndexColumn (kind : IndexKind) (table column : String)
  | unknownForeignTable (key table target database : String) (known : List String)
  | unknownLocalColumn (key table column : String)
  | unknownForeignColumn (key table target column : String)
  | missingTarget (table database : String)
  | reported (text : String)
deriving DecidableEq, Repr, Inhabited

def ReferenceError.message : ReferenceError → String
  | .unknownDomain table column domain =>
    s!"column '{table}.{column}' uses unknown domain '{domain}'"
  | .unregisteredBehavior name known =>
    s!"behavior '{name}' is not registered (known behaviors: " ++ ", ".intercalate known ++ ")"
  | .unknownIndexColumn kind table column =>
    kind.label ++ s!" on table '{table}' references unknown column '{column}'"
  | .unknownForeignTable key table target database known =>
    s!"foreign key '{key}' of table '{table}' references unknown table '{target}'"
      ++ s!" (known tables in database '{database}': " ++ ", ".intercalate known ++ ")"
  | .unknownLocalColumn key table column =>
    s!"foreign key '{key}' of table '{table}' uses unknown local column '{column}'"
  | .unknownForeignColumn key table target column =>
    s!"foreign key '{key}' of table '{table}' references unknown column '{target}.{column}'"
  | .missingTarget table database =>
    s!"behavior target table '{table}' does not exist in database '{database}'"
  | .reported text => text

/-- Why a schema file is not loaded. -/
inductive LoadError where
  | includesItself
  | noLocation
  | unknownFile
  | malformed (e : Json.SyntaxError)
  | misshapen (e : ShapeError)
  | unreadable (f : FileFault)
  /-- More files include one another than there are. -/
  | tooDeep
  | reported (text : String)
deriving DecidableEq, Repr, Inhabited

def LoadError.message : LoadError → String
  | .includesItself => "schema includes itself"
  | .noLocation => "relative include in a schema that has no location"
  | .unknownFile => "no such schema"
  | .malformed e => e.message
  | .misshapen e => e.message
  | .unreadable f => f.message
  | .tooDeep => "includes are nested too deeply"
  | .reported text => text

/-- A broken rule of the model. -/
inductive ConstraintError where
  | duplicateColumn (column table : String)
  | duplicateForeignKey (key table : String)
  | duplicateTable (table database : String)
  | duplicateDomain (domain database : String)
  | duplicateDatabase (database : String)
  | duplicateInheritanceKey (key column : String)
  | emptyIndex (kind : IndexKind) (name table : String)
  | duplicateIndexName (name table : String)
  | noPrimaryKey (table : String)
  | noForeignPrimaryKey (key table target : String)
  | synthesizedColumnExists (column key table : String)
  | duplicateBehavior (behavior : String) (owner : BehaviorOwner)
  | behaviorIdTaken (id : String) (owner : BehaviorOwner) (holder : String)
  | singleBehavior (behavior : String) (owner : BehaviorOwner)
  | duplicateQualifiedName (table nameSpace first second : String)
  /-- Behaviors keep attaching behaviors without end. -/
  | unsettledBehaviors (database : String)
  | reported (text : String)
deriving DecidableEq, Repr, Inhabited

def ConstraintError.message : ConstraintError → String
  | .duplicateColumn column table => s!"column '{column}' already exists in table '{table}'"
  | .duplicateForeignKey key table => s!"foreign key '{key}' is declared twice in table '{table}'"
  | .duplicateTable table database => s!"table '{table}' is declared twice in database '{database}'"
  | .duplicateDomain domain database =>
    s!"domain '{domain}' is declared twice in database '{database}'"
  | .duplicateDatabase database => s!"database '{database}' is declared twice in the schema"
  | .duplicateInheritanceKey key column =>
    s!"inheritance key '{key}' is declared twice on column '{column}'"
  | .emptyIndex kind name table => kind.label ++ s!" '{name}' on table '{table}' has no columns"
  | .duplicateIndexName name table => s!"index name '{name}' is used twice in table '{table}'"
  | .noPrimaryKey table => s!"table '{table}' has no primary key"
  | .noForeignPrimaryKey key table target =>
    s!"foreign key '{key}' of table '{table}' has no references and foreign table '{target}'"
      ++ " has no primary key"
  | .synthesizedColumnExists column key table =>
    s!"column '{column}' synthesized for foreign key '{key}' already exists in table '{table}'"
  | .duplicateBehavior behavior owner =>
    s!"behavior '{behavior}' is already registered on " ++ owner.label
      ++ "; give each instance a distinct id to register it more than once"
  | .behaviorIdTaken id owner holder =>
    s!"behavior id '{id}' on " ++ owner.label ++ s!" is already used by a '{holder}' behavior"
  | .singleBehavior behavior owner =>
    s!"behavior '{behavior}' does not allow multiple instances on " ++ owner.label
  | .duplicateQualifiedName table nameSpace first second =>
    s!"table '{table}' in namespace '{nameSpace}' is declared in both database '{first}'"
      ++ s!" and database '{second}'"
  | .unsettledBehaviors database => s!"behaviors of database '{database}' do not settle"
  | .reported text => text

inductive ConfigurationError where
  | malformed (e : Json.SyntaxError)
  | misshapen (e : ShapeError)
  | unknownColumnType (text : String)
  | unknownIdMethod (text : String)
  | unknownStringFormat (text : String)
  | unknownVisibility (text : String)
  | unknownReferentialAction (text : String)
  | twoDefaults (owner : DefaultOwner)
  | defaultNotScalar (owner : DefaultOwner)
  | inheritanceKeyNotScalar (owner : DefaultOwner)
  | idParameterNotScalar (table : String)
  | behaviorParameterNotScalar (parameter behavior : String)
  | vendorParameterNotScalar (parameter vendor : String)
  | namelessDomain (database : String)
  /-- A scripted behavior asks for something that is no step. -/
  | brokenScript (text : String)
  | reported (text : String)
deriving DecidableEq, Repr, Inhabited

def ConfigurationError.message : ConfigurationError → String
  | .malformed e => e.message
  | .misshapen e => e.message
  | .unknownColumnType text => s!"unknown column type '{text}'"
  | .unknownIdMethod text => s!"unknown id method '{text}'"
  | .unknownStringFormat text => s!"unknown string format '{text}'"
  | .unknownVisibility text => s!"unknown visibility '{text}'"
  | .unknownReferentialAction text => s!"unknown referential action '{text}'"
  | .twoDefaults owner => owner.label ++ " sets both defaultValue and defaultExpr"
  | .defaultNotScalar owner => "defaultValue of " ++ owner.label ++ " must be a scalar"
  | .inheritanceKeyNotScalar owner => "inheritance key on " ++ owner.label ++ " must be a scalar"
  | .idParameterNotScalar table => s!"id method parameter of table '{table}' must be a scalar"
  | .behaviorParameterNotScalar parameter behavior =>
    s!"parameter '{parameter}' of behavior '{behavior}' must be a scalar"
  | .vendorParameterNotScalar parameter vendor =>
    s!"vendor parameter '{parameter}' for '{vendor}' must be a scalar"
  | .namelessDomain database => s!"domain declared without a name in database '{database}'"
  | .brokenScript text => s!"script: {text}"
  | .reported text => text

inductive Error where
  | reference (cause : ReferenceError)
  | load (path : Path) (cause : LoadError)
  | constraint (cause : ConstraintError)
  | configuration (cause : ConfigurationError)
deriving DecidableEq, Repr, Inhabited

def Error.message : Error → String
  | .reference cause => "Unresolved reference: " ++ cause.message
  | .load path cause => "Cannot load schema " ++ path.text ++ ": " ++ cause.message
  | .constraint cause => "Constraint violation: " ++ cause.message
  | .configuration cause => "Invalid configuration: " ++ cause.message

end Schemata
