import Schemata.Plugin.Archivable
import Schemata.Plugin.Timestampable

/-!
# Built-in plugins

The registry that every schema starts with.
-/

namespace Schemata

def Registry.builtin : Registry :=
  Dictionary.ofList [("timestampable", Timestampable.plugin), ("archivable", Archivable.plugin)]

end Schemata
