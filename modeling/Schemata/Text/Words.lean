import Schemata.Text.Case
import Schemata.Text.Cluster

/-!
# Words of a name

A name is cut into words at underscores, hyphens and spaces, which are dropped, and where the case or
kind of its characters changes: `authorId`, `HTTPServer` and `line2` have two words each. The words
are then written again in one of four styles.
-/

namespace Schemata.Text

/-- A character with two case forms, shown in upper case. -/
def isUpperCluster (g : List Char) : Bool :=
  upperChars g != lowerChars g && upperChars g == g

/-- A character with two case forms, shown in lower case. -/
def isLowerCluster (g : List Char) : Bool :=
  upperChars g != lowerChars g && lowerChars g == g

def isDigitCluster (g : List Char) : Bool :=
  g.all Char.isDigit

/-- A character that only separates words. -/
def isSeparator (g : List Char) : Bool :=
  g == ['_'] || g == ['-'] || g == [' ']

/-- Whether a word ends between two neighbours: the case rises, or letters and digits meet. -/
def changesKind (g h : List Char) : Bool :=
  isLowerCluster g && isUpperCluster h
    || isLowerCluster g && isDigitCluster h
    || isUpperCluster g && isDigitCluster h
    || isDigitCluster g && isLowerCluster h
    || isDigitCluster g && isUpperCluster h

/-- Whether a word ends after `g`. An acronym ends before the capital that begins the next word. -/
def endsWord (g : List Char) : List (List Char) → Bool
  | [] => false
  | [h] => changesKind g h
  | h :: k :: _ => changesKind g h || isUpperCluster g && isUpperCluster h && isLowerCluster k

/-- The words of the rest of a name, where `word` is the open word, last cluster first. -/
def wordsAfter (word : List (List Char)) : List (List Char) → List (List Char)
  | [] => [word.reverse.flatten]
  | g :: rest =>
    if isSeparator g then word.reverse.flatten :: wordsAfter [] rest
    else if endsWord g rest then (g :: word).reverse.flatten :: wordsAfter [] rest
    else wordsAfter (g :: word) rest

/-- The words of a name, in order. Empty words are kept; the empty name has none. -/
def words (s : String) : List (List Char) :=
  if s.isEmpty then [] else wordsAfter [] (clusters s.toList)

/-- The word with its first character in upper case and the others in lower case. -/
def capitalized : List Char → List Char
  | [] => []
  | c :: rest => upperChar c ++ lowerChars rest

/-- Words run together, each capitalized: `BookAuthor`. -/
def studlyCase (s : String) : String :=
  String.ofList ((words s).flatMap capitalized)

/-- Words run together, each but the first capitalized: `bookAuthor`. -/
def camelCase (s : String) : String :=
  match words s with
  | [] => ""
  | first :: rest => String.ofList (lowerChars first ++ rest.flatMap capitalized)

/-- Lower-case words with underscores between them: `book_author`. -/
def snakeCase (s : String) : String :=
  String.ofList (List.intercalate ['_'] ((words s).map lowerChars))

/-- Upper-case words with underscores between them: `BOOK_AUTHOR`. -/
def constantCase (s : String) : String :=
  String.ofList (List.intercalate ['_'] ((words s).map upperChars))

end Schemata.Text
