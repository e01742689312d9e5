import Schemata.Text.Blank
import Schemata.Text.Case

/-!
# Settings

What a database sets for all its tables, and what a table may set for itself. A table that sets
nothing takes the setting of its database.
-/

namespace Schemata

/-- How primary keys come about. -/
inductive IdMethod where
  /-- The platform counts. -/
  | native
  | none
deriving DecidableEq, Repr, Inhabited

namespace IdMethod

def ofText? (s : String) : Option IdMethod :=
  match Text.lower (Text.trimBlanks s) with
  | "native" | "autoincrement" | "sequence" => some .native
  | "none" => some .none
  | _ => Option.none

def text : IdMethod → String
  | .native => "native"
  | .none => "none"

end IdMethod

/-- The format in which an object shows itself. -/
inductive StringFormat where
  | yaml
  | json
  | xml
  | csv
deriving DecidableEq, Repr, Inhabited

namespace StringFormat

def ofText? (s : String) : Option StringFormat :=
  match Text.upper (Text.trimBlanks s) with
  | "YAML" => some .yaml
  | "JSON" => some .json
  | "XML" => some .xml
  | "CSV" => some .csv
  | _ => none

def text : StringFormat → String
  | .yaml => "YAML"
  | .json => "JSON"
  | .xml => "XML"
  | .csv => "CSV"

end StringFormat

/-- Who may call a generated method. -/
inductive Visibility where
  | everyone
  | subclasses
  | itself
deriving DecidableEq, Repr, Inhabited

namespace Visibility

def ofText? (s : String) : Option Visibility :=
  match Text.lower (Text.trimBlanks s) with
  | "public" => some .everyone
  | "protected" => some .subclasses
  | "private" => some .itself
  | _ => none

def text : Visibility → String
  | .everyone => "public"
  | .subclasses => "protected"
  | .itself => "private"

end Visibility

structure Settings where
  idMethod : IdMethod := .native
  heavyIndexing : Bool := false
  identifierQuoting : Bool := false
  stringFormat : StringFormat := .yaml
  accessorVisibility : Visibility := .everyone
  mutatorVisibility : Visibility := .everyone
deriving DecidableEq, Repr, Inhabited

/-- The settings of a table, as far as it has its own. -/
structure OwnSettings where
  idMethod : Option IdMethod := none
  heavyIndexing : Option Bool := none
  identifierQuoting : Option Bool := none
  stringFormat : Option StringFormat := none
  accessorVisibility : Option Visibility := none
  mutatorVisibility : Option Visibility := none
deriving DecidableEq, Repr, Inhabited

/-- The own settings, and for each one that is missing the setting of the database. -/
def OwnSettings.orElse (own : OwnSettings) (s : Settings) : OwnSettings where
  idMethod := some (own.idMethod.getD s.idMethod)
  heavyIndexing := some (own.heavyIndexing.getD s.heavyIndexing)
  identifierQuoting := some (own.identifierQuoting.getD s.identifierQuoting)
  stringFormat := some (own.stringFormat.getD s.stringFormat)
  accessorVisibility := some (own.accessorVisibility.getD s.accessorVisibility)
  mutatorVisibility := some (own.mutatorVisibility.getD s.mutatorVisibility)

/-- Settings once filled in do not change again. -/
theorem OwnSettings.orElse_orElse (own : OwnSettings) (s t : Settings) :
    (own.orElse s).orElse t = own.orElse s := rfl

end Schemata
