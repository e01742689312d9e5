import Schemata.Finalize.ImplicitKey

/-!
# Back edges

Each foreign key is entered at the table and the columns that it points at, and a table knows whether
a column of its primary key refers elsewhere. The columns that a key names must exist on both sides.
-/

namespace Schemata

namespace Table

/-- The table with a key entered at itself and at the columns that the key points at. -/
def link (t : Table) (k : ForeignKey) : Table :=
  k.foreignColumns.foldl (fun t name => t.modifyColumn name (·.addReferrer k.id)) (t.addReferrer k.id)

/-- Whether the column of a name belongs to the primary key. -/
def isKeyColumn (t : Table) (name : String) : Bool :=
  ((t.column? name).map (·.primaryKey)).getD false

/-- Whether a column of the primary key is the local side of a foreign key. -/
def refersByKey (t : Table) : Bool :=
  t.foreignKeys.any fun k => k.localColumns.any t.isKeyColumn

end Table

namespace Database

/-- Enters one key of the table at a position at its target. -/
def linkKey (pos : Nat) (k : ForeignKey) : Edit Database Unit := do
  let d ← Change.get
  let target ← Change.ofExcept (d.resolve pos k)
  match d.tables[pos]?, d.tables[target]? with
  | some own, some foreign =>
    match k.localColumns.find? (!own.hasColumn ·) with
    | some column => Change.fail (.reference (.unknownLocalColumn k.name own.name column))
    | none =>
      match k.foreignColumns.find? (!foreign.hasColumn ·) with
      | some column =>
        Change.fail (.reference (.unknownForeignColumn k.name k.table foreign.name column))
      | none =>
        Change.modify (·.modifyTableAt target (·.link k))
        Change.report (.registeredReferrer k.id.text foreign.name)
  | _, _ => pure ()

/-- Enters the keys of the table at a position at their targets, in their order. -/
def linkKeys (pos : Nat) : Edit Database Unit := do
  let d ← Change.get
  match d.tables[pos]? with
  | none => pure ()
  | some t =>
    Change.forEach (linkKey pos) t.foreignKeys
    Change.modify (·.modifyTableAt pos fun t => { t with containsForeignKey := t.refersByKey })

end Database

end Schemata
