import Schemata.Table

/-!
# Derived names

The column that an implicit foreign key gets for a foreign column, and the names of the relations that
a foreign key stands for in generated code.
-/

namespace Schemata

/-- The local column for a column of the foreign primary key: `author` and `id` give `authorId`. -/
def implicitColumnName (key column : String) : String :=
  Text.lowerFirst key ++ Text.upperFirst column

namespace Table

/-- What tells apart several keys of the table to one foreign table: the local columns. -/
def relationSuffix (t : Table) (k : ForeignKey) : String :=
  if (t.foreignKeys.filter (·.target == k.target)).length < 2 then ""
  else "RelatedBy" ++ String.join (k.localColumns.map Text.studlyCase)

/-- The name of the foreign object, seen from the table. -/
def relationName (t : Table) (k : ForeignKey) : String :=
  match k.codeName with
  | some name => name
  | none => Text.studlyCase k.target ++ t.relationSuffix k

/-- The name of the referring objects, seen from the foreign table. -/
def reverseRelationName (t : Table) (k : ForeignKey) : String :=
  match k.reverseCodeName with
  | some name => name
  | none => t.codeName ++ t.relationSuffix k

end Table

end Schemata
