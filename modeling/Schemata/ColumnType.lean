import Schemata.Text.Blank
import Schemata.Text.Case

/-!
# Column types

The types that every platform understands, with the spellings under which a schema may name them.
-/

namespace Schemata

inductive ColumnType where
  | boolean
  | tinyInt
  | smallInt
  | integer
  | bigInt
  | float
  | real
  | double
  | decimal
  | numeric
  | char
  | varchar
  | longVarchar
  | clob
  | date
  | time
  | timestamp
  | binary
  | varBinary
  | longVarBinary
  | blob
  | enum
  | object
  | array
  | json
  | uuid
deriving DecidableEq, Repr, Inhabited

namespace ColumnType

def name : ColumnType → String
  | .boolean => "BOOLEAN"
  | .tinyInt => "TINYINT"
  | .smallInt => "SMALLINT"
  | .integer => "INTEGER"
  | .bigInt => "BIGINT"
  | .float => "FLOAT"
  | .real => "REAL"
  | .double => "DOUBLE"
  | .decimal => "DECIMAL"
  | .numeric => "NUMERIC"
  | .char => "CHAR"
  | .varchar => "VARCHAR"
  | .longVarchar => "LONGVARCHAR"
  | .clob => "CLOB"
  | .date => "DATE"
  | .time => "TIME"
  | .timestamp => "TIMESTAMP"
  | .binary => "BINARY"
  | .varBinary => "VARBINARY"
  | .longVarBinary => "LONGVARBINARY"
  | .blob => "BLOB"
  | .enum => "ENUM"
  | .object => "OBJECT"
  | .array => "ARRAY"
  | .json => "JSON"
  | .uuid => "UUID"

/-- The spellings of the types, in lower case. -/
def spellings : List (String × ColumnType) :=
  [
    ("boolean", .boolean), ("bool", .boolean),
    ("tinyint", .tinyInt),
    ("smallint", .smallInt), ("int2", .smallInt),
    ("integer", .integer), ("int", .integer), ("int4", .integer),
    ("bigint", .bigInt), ("int8", .bigInt),
    ("float", .float),
    ("real", .real), ("float4", .real),
    ("double", .double), ("double precision", .double), ("float8", .double),
    ("decimal", .decimal),
    ("numeric", .numeric),
    ("char", .char), ("character", .char),
    ("varchar", .varchar), ("character varying", .varchar), ("string", .varchar),
    ("longvarchar", .longVarchar), ("text", .longVarchar),
    ("clob", .clob), ("longtext", .clob),
    ("date", .date),
    ("time", .time),
    ("timestamp", .timestamp), ("datetime", .timestamp), ("timestamptz", .timestamp),
    ("binary", .binary),
    ("varbinary", .varBinary),
    ("longvarbinary", .longVarBinary), ("bytea", .longVarBinary),
    ("blob", .blob), ("longblob", .blob),
    ("enum", .enum),
    ("object", .object),
    ("array", .array),
    ("json", .json), ("jsonb", .json),
    ("uuid", .uuid)]

/-- The type that a text names, in any case and whatever size follows in parentheses. -/
def ofText? (s : String) : Option ColumnType :=
  let base := String.ofList ((Text.lower s).toList.takeWhile (· ≠ '('))
  spellings.lookup (Text.trimBlanks base)

def isNumeric : ColumnType → Bool
  | .tinyInt | .smallInt | .integer | .bigInt | .float | .real | .double | .decimal | .numeric => true
  | _ => false

def isText : ColumnType → Bool
  | .char | .varchar | .longVarchar | .clob => true
  | _ => false

def isLarge : ColumnType → Bool
  | .clob | .blob | .longVarBinary => true
  | _ => false

def isTemporal : ColumnType → Bool
  | .date | .time | .timestamp => true
  | _ => false

end ColumnType

end Schemata
