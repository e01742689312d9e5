import Schemata.Plugin
import Schemata.Proofs.Change
import Schemata.Proofs.Lookup

/-!
# Distinct names

Whatever has a name is alone with it among its kind and under its owner. These conditions are what the
operations on tables and databases check; here they are stated of whole databases, together with what
it means that the hooks of a registry keep a condition.
-/

namespace Schemata

/-- The columns of a table have distinct names, and so have its keys. -/
structure Table.DistinctNames (t : Table) : Prop where
  columns : (t.columns.map (·.name)).Nodup
  foreignKeys : (t.foreignKeys.map (·.name)).Nodup

instance (t : Table) : Decidable t.DistinctNames :=
  decidable_of_iff ((t.columns.map (·.name)).Nodup ∧ (t.foreignKeys.map (·.name)).Nodup)
    ⟨fun ⟨hc, hk⟩ => ⟨hc, hk⟩, fun ⟨hc, hk⟩ => ⟨hc, hk⟩⟩

namespace Database

/-- Tables have distinct names, and within each table columns and keys have. -/
structure DistinctNames (d : Database) : Prop where
  tables : d.tableNames.Nodup
  inTables : ∀ t ∈ d.tables, t.DistinctNames

/-- The behaviors of the database have distinct ids, and so have those of each table. -/
structure DistinctBehaviors (d : Database) : Prop where
  own : (d.behaviors.map (·.id)).Nodup
  inTables : ∀ t ∈ d.tables, (t.behaviors.map (·.id)).Nodup

/-- Names are distinct, of tables, columns and keys and of behaviors. -/
structure Distinct (d : Database) : Prop where
  names : d.DistinctNames
  behaviors : d.DistinctBehaviors

/-- Every key carries the name of the table that holds it. -/
def OwnsKeys (d : Database) : Prop :=
  ∀ t ∈ d.tables, ∀ k ∈ t.foreignKeys, k.table = t.name

instance (d : Database) : Decidable d.DistinctNames :=
  decidable_of_iff (d.tableNames.Nodup ∧ ∀ t ∈ d.tables, t.DistinctNames)
    ⟨fun ⟨ht, hin⟩ => ⟨ht, hin⟩, fun ⟨ht, hin⟩ => ⟨ht, hin⟩⟩

instance (d : Database) : Decidable d.DistinctBehaviors :=
  decidable_of_iff ((d.behaviors.map (·.id)).Nodup ∧ ∀ t ∈ d.tables, (t.behaviors.map (·.id)).Nodup)
    ⟨fun ⟨ho, hin⟩ => ⟨ho, hin⟩, fun ⟨ho, hin⟩ => ⟨ho, hin⟩⟩

instance (d : Database) : Decidable d.Distinct :=
  decidable_of_iff (d.DistinctNames ∧ d.DistinctBehaviors) ⟨fun ⟨hn, hb⟩ => ⟨hn, hb⟩, fun ⟨hn, hb⟩ => ⟨hn, hb⟩⟩

instance (d : Database) : Decidable d.OwnsKeys :=
  inferInstanceAs (Decidable (∀ t ∈ d.tables, ∀ k ∈ t.foreignKeys, k.table = t.name))

/-- With distinct names a table is found by its own name. -/
theorem table?_name {d : Database} (hd : d.tableNames.Nodup) {t : Table} (ht : t ∈ d.tables) :
    d.table? t.name = some t :=
  find?_key hd ht

/-- A table of a new name may join. -/
theorem tableNames_append {d : Database} {t : Table} (hd : d.tableNames.Nodup) (ht : d.hasTable t.name = false) :
    (tableNames { d with tables := d.tables ++ [t] }).Nodup :=
  nodup_append_singleton hd (not_mem_of_any_eq_false ht)

end Database

namespace Registry

/-- The hooks of a registry, when they succeed, relate the databases before and after by `R`. -/
structure HooksObey (r : Registry) (R : Database → Database → Prop) : Prop where
  database : ∀ {b : Behavior} {hook : Behavior → Edit Database Unit} {d e : Database},
    r.databaseHook? b = some hook → (hook b).Gives d () e → R d e
  table : ∀ {b : Behavior} {hook : Behavior → String → Edit Database Unit} {name : String} {d e : Database},
    r.tableHook? b = some hook → (hook b name).Gives d () e → R d e

/-- The hooks of a registry keep a condition on databases when they succeed. -/
abbrev HooksKeep (r : Registry) (P : Database → Prop) : Prop :=
  r.HooksObey fun d e => P d → P e

end Registry

end Schemata
