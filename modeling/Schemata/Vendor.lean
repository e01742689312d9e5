import Schemata.Dictionary
import Schemata.Text.Case

/-!
# Vendor blocks

Parameters that only one platform reads, attached to any part of a schema. Platform names are compared
without regard to the case of ASCII letters.
-/

namespace Schemata

structure Vendor where
  platform : String
  parameters : Dictionary String := {}
deriving DecidableEq, Repr, Inhabited

namespace Vendor

def isFor (v : Vendor) (platform : String) : Bool :=
  Text.sameIgnoringAsciiCase v.platform platform

/-- The value of a parameter in the first block for the platform that has it. -/
def parameter? (vs : List Vendor) (platform name : String) : Option String :=
  (vs.filter (·.isFor platform)).findSome? (·.parameters.get? name)

end Vendor

end Schemata
