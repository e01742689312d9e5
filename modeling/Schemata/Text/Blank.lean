import Schemata.Text.Ranges

/-!
# Blank characters

Spaces, tabs and line ends of every script, and the text between them.
-/

namespace Schemata.Text

/-- Characters that count as white space (property `White_Space`). -/
def blankRanges : Ranges :=
  [
    (0x0009, 0x000D), (0x0020, 0x0020), (0x0085, 0x0085), (0x00A0, 0x00A0), (0x1680, 0x1680),
    (0x2000, 0x200A), (0x2028, 0x2029), (0x202F, 0x202F), (0x205F, 0x205F), (0x3000, 0x3000)]

def isBlank (c : Char) : Bool :=
  blankRanges.contains c

def trimBlanks (s : String) : String :=
  String.ofList ((s.toList.dropWhile isBlank).reverse.dropWhile isBlank).reverse

end Schemata.Text
