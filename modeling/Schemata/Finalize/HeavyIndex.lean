import Schemata.Database

/-!
# Heavy indexing

A heavily indexed table has an index over every proper suffix of its primary key, so that look-ups by
the later columns of the key are served as well.
-/

namespace Schemata

/-- The suffixes of a list that are neither empty nor the whole list, the longest first. -/
def properSuffixes {α : Type} : List α → List (List α)
  | [] => []
  | [_] => []
  | _ :: b :: rest => (b :: rest) :: properSuffixes (b :: rest)

namespace Table

/-- Adds an index over these columns, unless there is one. -/
def addHeavyIndex (names : List String) : Edit Table Unit := do
  let t ← Change.get
  if t.hasIndexOver names then pure ()
  else
    Change.attempt (·.addIndex (Index.ofNames names))
    Change.report (.addedHeavyIndex t.name names)

/-- Adds the missing indices of a heavily indexed table. -/
def addHeavyIndices : Edit Table Unit := do
  let t ← Change.get
  if t.isHeavyIndexing then Change.forEach addHeavyIndex (properSuffixes t.primaryKeyNames)
  else pure ()

end Table

end Schemata
