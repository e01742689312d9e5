import Schemata.Proofs.FailureCondition

/-!
# Implicit keys

What becomes of the keys that were declared without pairs: each gets a pair and a column for every column
of the foreign primary key, and nothing else changes (`completeKeys_exact`). The keys are completed one by
one, and a key may mean the very table that grows meanwhile; but what is added is never part of a primary
key, so every key reads the one that was declared.
-/

namespace Schemata

namespace Table
variable {t u : Table} {w : Unit}

/-- The table with its implicit keys completed, where `foreign` gives the table that each of them means: a
    pair for every column of the foreign primary key and a column for every pair, in the order of the keys
    and then of those columns. -/
def completedFor (foreign : ForeignKey → Table) (t : Table) : Table :=
  { t with
    columns := t.columns ++ (t.foreignKeys.filter (·.isImplicit)).flatMap fun k =>
      (foreign k).primaryKey.map fun c =>
        { name := Text.lowerFirst k.name ++ Text.upperFirst c.name, domain := { c.domain with name := none } }
    foreignKeys := t.foreignKeys.map fun k =>
      if k.isImplicit then
        { k with
          references := (foreign k).primaryKey.map fun c =>
            ⟨Text.lowerFirst k.name ++ Text.upperFirst c.name, c.name⟩ }
      else k }

/-- Completing a key touches columns and keys only. -/
theorem columns_completeKey {key : String} {pk : List Column} (h : (completeKey key pk).Gives t w u) :
    u = { t with columns := t.columns ++ pk.map (implicitColumn key), foreignKeys := u.foreignKeys } := by
  simp only [completeKey, Change.gives_bind, Change.gives_modify] at h
  obtain ⟨_, v, hcolumns, rfl⟩ := h
  obtain ⟨-, rfl⟩ := gives_addImplicitColumns hcolumns
  rfl

end Table

namespace Database
variable {d e : Database} {pos : Nat} {t u : Table} {k : ForeignKey} {ks : List ForeignKey} {w : Unit}

/-- Each key that is completed means a table with a primary key. -/
theorem CompletesKeys.target (h : d.CompletesKeys ks t u) :
    ∃ foreign : ForeignKey → Table, ∀ k ∈ ks, d.target? k = some (foreign k) ∧ (foreign k).hasPrimaryKey = true := by
  refine ⟨fun k => (d.target? k).getD default, ?_⟩
  induction h with
  | nil t => simp
  | cons target hasKey first rest ih =>
    refine List.forall_mem_cons.mpr ⟨?_, ih⟩
    simpa only [target, Option.getD_some, true_and] using hasKey

theorem CompletesKeys.columns (h : d.CompletesKeys ks t u) {foreign : ForeignKey → Table}
    (hforeign : ∀ k ∈ ks, d.target? k = some (foreign k)) :
    u = { t with
      columns := t.columns ++ ks.flatMap fun k => (foreign k).primaryKey.map (Table.implicitColumn k.name)
      foreignKeys := u.foreignKeys } := by
  induction h with
  | nil t => simp
  | cons target hasKey first rest ih =>
    obtain ⟨hk, hks⟩ := List.forall_mem_cons.mp hforeign
    rw [target] at hk
    cases hk
    rw [ih hks, Table.columns_completeKey first, List.flatMap_cons, List.append_assoc]

theorem completedKey_of_implicit {foreign : Table} (himp : k.isImplicit = true) (hk : d.target? k = some foreign) :
    d.completedKey k = { k with references := Table.implicitReferences k.name foreign.primaryKey } := by
  rw [completedKey, if_pos himp, hk]
  rfl

/-- Completing the keys of a table completes its implicit keys for the tables that they mean and changes
    nothing else. Its primary key stays as it was. -/
theorem completeKeys_exact (hkeys : (t.foreignKeys.map (·.name)).Nodup) (ht : d.tables[pos]? = some t)
    (h : (completeKeys pos).Gives d w e) :
    ∃ foreign : ForeignKey → Table,
      (∀ k ∈ t.foreignKeys, k.isImplicit = true → d.PointsAt k (foreign k) ∧ (foreign k).primaryKey ≠ []) ∧
        e = { d with tables := d.tables.set pos (t.completedFor foreign) } ∧
        (t.completedFor foreign).primaryKey = t.primaryKey := by
  rw [completeKeys_eq ht, gives_completeKeyList_iff (.refl d) ht] at h
  obtain ⟨u, hu, rfl⟩ := h
  obtain ⟨foreign, hforeign⟩ := hu.target
  have hmem : ∀ k ∈ t.foreignKeys, k.isImplicit = true → k ∈ t.foreignKeys.filter (·.isImplicit) := fun k hk himp =>
    List.mem_filter.mpr ⟨hk, himp⟩
  have hnames : ((t.foreignKeys.filter (·.isImplicit)).map (·.name)).Nodup :=
    hkeys.sublist (List.filter_sublist.map _)
  have hpairs : u.foreignKeys = t.foreignKeys.map fun k =>
      if k.isImplicit then { k with references := Table.implicitReferences k.name (foreign k).primaryKey } else k := by
    rw [hu.foreignKeys hkeys hnames fun k hk => List.mem_filter.mp hk]
    refine List.map_congr_left fun k hk => ?_
    by_cases himp : k.isImplicit = true
    · rw [if_pos (hmem k hk himp), if_pos himp, completedKey_of_implicit himp (hforeign k (hmem k hk himp)).1]
    · rw [if_neg fun hin => himp (List.mem_filter.mp hin).2, if_neg himp]
  have hcompleted : u = t.completedFor foreign := by
    rw [hu.columns fun k hk => (hforeign k hk).1, hpairs]
    rfl
  refine ⟨foreign, fun k hk himp => ?_, hcompleted ▸ rfl, hcompleted ▸ hu.grows.primaryKey⟩
  obtain ⟨hk, hpk⟩ := hforeign k (hmem k hk himp)
  rw [Table.hasPrimaryKey_eq] at hpk
  exact ⟨pointsAt_iff_target?.mpr hk, by simpa using hpk⟩

/-- The nodes of trees. A node refers to its parent in the same table and to three persons. -/
def node : Table where
  name := "node"
  columns :=
    [{ name := "tree", domain := { type := .integer }, primaryKey := true },
      { name := "number", domain := { name := some "counter", type := .bigInt }, primaryKey := true },
      { name := "planter", domain := { type := .integer } }]
  foreignKeys :=
    [{ name := "Parent", target := "node", table := "node" },
      { name := "owner", target := "person", table := "node" },
      { name := "planter", target := "person", references := [⟨"planter", "id"⟩], table := "node" },
      { name := "keeper", target := "person", table := "node" }]

def forest : Database where
  name := "forest"
  tables :=
    [{ name := "person"
       columns :=
         [{ name := "nickname", domain := { type := .varchar } },
           { name := "id", domain := { type := .integer }, primaryKey := true, autoIncrement := true, notNull := true }] },
     node]

def completedNode : Table :=
  { node with
    columns := node.columns ++
      [{ name := "parentTree", domain := { type := .integer } },
        { name := "parentNumber", domain := { type := .bigInt } },
        { name := "ownerId", domain := { type := .integer } },
        { name := "keeperId", domain := { type := .integer } }]
    foreignKeys :=
      [{ name := "Parent", target := "node", table := "node"
         references := [⟨"parentTree", "tree"⟩, ⟨"parentNumber", "number"⟩] },
        { name := "owner", target := "person", references := [⟨"ownerId", "id"⟩], table := "node" },
        { name := "planter", target := "person", references := [⟨"planter", "id"⟩], table := "node" },
        { name := "keeper", target := "person", references := [⟨"keeperId", "id"⟩], table := "node" }] }

theorem completeKeys_exact_forest :
    (node.foreignKeys.map (·.name)).Nodup ∧ forest.tables[1]? = some node ∧
      (completeKeys 1).Gives forest () { forest with tables := forest.tables.set 1 completedNode } ∧
      ∃ foreign : ForeignKey → Table,
        (∀ k ∈ node.foreignKeys, k.isImplicit = true → forest.PointsAt k (foreign k) ∧ (foreign k).primaryKey ≠ []) ∧
          { forest with tables := forest.tables.set 1 completedNode } =
            { forest with tables := forest.tables.set 1 (node.completedFor foreign) } ∧
          (node.completedFor foreign).primaryKey = node.primaryKey := by
  have hkeys : (node.foreignKeys.map (·.name)).Nodup := by decide
  have hgives : (completeKeys 1).Gives forest () { forest with tables := forest.tables.set 1 completedNode } := by
    refine ⟨rfl, ?_⟩
    decide
  exact ⟨hkeys, rfl, hgives, completeKeys_exact hkeys rfl hgives⟩

end Database

end Schemata
