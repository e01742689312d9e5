/-!
# Look-ups by name

The parts of a schema are kept in lists and found by a name or an id. Where several parts answer to
one name, the first of them counts.
-/

namespace Schemata

/-- The list with the first item that `p` accepts changed, if there is one. -/
def modifyFirst {α : Type} (p : α → Bool) (f : α → α) : List α → List α
  | [] => []
  | a :: rest => if p a then f a :: rest else a :: modifyFirst p f rest

end Schemata
