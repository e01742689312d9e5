import Schemata.ColumnType

/-!
# Domains

The type, the size and the default of a column. A domain with a name is declared once for a database
and copied into the columns that use it.
-/

namespace Schemata

/-- A default value: a literal or an expression of the platform. -/
inductive Default where
  | value (text : String)
  | expression (text : String)
deriving DecidableEq, Repr, Inhabited

structure Domain where
  name : Option String := none
  type : ColumnType := .varchar
  sqlType : Option String := none
  size : Option Nat := none
  scale : Option Nat := none
  default : Option Default := none
deriving DecidableEq, Repr, Inhabited

/-- The domain as a column takes it over: without the name. -/
def Domain.unnamed (d : Domain) : Domain :=
  { d with name := none }

end Schemata
