import Schemata.Proofs.ImplicitKeys

/-!
# What finalization leaves as it is

Finalization of a database without pending behaviors adds to its tables and fills in what they leave
open. It takes nothing away and changes nothing else, neither in a table nor in the database: each table
is what it becomes by itself (`Database.Alone`), apart from back edges.
-/

namespace Schemata

/-! ### Tables -/

/-- An explicit key stays, and an implicit one gains pairs. -/
def ForeignKey.Filled (k l : ForeignKey) : Prop :=
  if k.references = [] then ∃ rs, rs ≠ [] ∧ l = { k with references := rs } else l = k

namespace Table

/-- The id method that a table of `d` ends with: its own one or that of the database, but none where no column
    counts. -/
def finalIdMethod (d : Database) (t : Table) : IdMethod :=
  let resolved := t.settings.idMethod.getD d.settings.idMethod
  if resolved = .native ∧ ∀ c ∈ t.columns, c.autoIncrement = false then .none else resolved

/-- The table without what finalization adds to, fills in or derives. -/
def untouched (t : Table) : Table :=
  { t with
    settings := {}
    nameSpace := none
    columns := []
    foreignKeys := []
    indices := []
    referrers := []
    containsForeignKey := false }

/-- `u` has all that the table `t` of `d` has: columns and indices behind those that were there, pairs for implicit
    keys, each setting its own one or else that of the database, other back edges, and nothing else. -/
structure Conserves (d : Database) (t u : Table) : Prop where
  columns : t.columns.map ({ · with referrers := [] }) <+: u.columns.map ({ · with referrers := [] })
  foreignKeys : List.Forall₂ ForeignKey.Filled t.foreignKeys u.foreignKeys
  indices : t.indices <+: u.indices
  nameSpace : u.nameSpace = t.nameSpace.or d.nameSpace
  idMethod : u.settings.idMethod = some (t.finalIdMethod d)
  heavyIndexing : u.settings.heavyIndexing = some (t.settings.heavyIndexing.getD d.settings.heavyIndexing)
  identifierQuoting :
    u.settings.identifierQuoting = some (t.settings.identifierQuoting.getD d.settings.identifierQuoting)
  stringFormat : u.settings.stringFormat = some (t.settings.stringFormat.getD d.settings.stringFormat)
  accessorVisibility :
    u.settings.accessorVisibility = some (t.settings.accessorVisibility.getD d.settings.accessorVisibility)
  mutatorVisibility :
    u.settings.mutatorVisibility = some (t.settings.mutatorVisibility.getD d.settings.mutatorVisibility)
  counts : u.settings.idMethod = some .native → ∃ c ∈ u.columns, c.autoIncrement = true
  rest : u.untouched = t.untouched

variable {t u v : Table}

/-- Where something counts before, something counts after. -/
theorem Extends.counts (h : t.Extends u) (ht : t.idMethod = .native → t.hasAutoIncrement = true) :
    u.idMethod = .native → u.hasAutoIncrement = true := by
  intro hu
  rw [h.hasAutoIncrement]
  rcases h.settings with hs | ⟨-, -, hs⟩
  · refine ht ?_
    rwa [idMethod, hs] at hu
  · simp [idMethod, hs] at hu

/-- The settings of a table that grows follow from those before, when nothing is left that has nothing to count. -/
theorem Extends.settings_eq (h : t.Extends u) (hu : u.idMethod = .native → u.hasAutoIncrement = true) :
    u.settings =
      if t.idMethod = .native ∧ t.hasAutoIncrement = false then { t.settings with idMethod := some .none }
      else t.settings := by
  rcases h.settings with hs | ⟨hn, ha, hs⟩
  · rw [hs, if_neg]
    rintro ⟨hn, ha⟩
    rw [idMethod, hs, h.hasAutoIncrement, ha] at hu
    cases hu hn
  · rw [hs, if_pos ⟨hn, ha⟩]

theorem finalIdMethod_eq (d : Database) (t : Table) : t.finalIdMethod d =
    if (t.prepare d).idMethod = .native ∧ (t.prepare d).hasAutoIncrement = false then .none
    else (t.prepare d).idMethod := by
  have hsame : (t.prepare d).hasAutoIncrement = t.hasAutoIncrement := bare_hasAutoIncrement t
  have hcount : (∀ c ∈ t.columns, c.autoIncrement = false) ↔ (t.prepare d).hasAutoIncrement = false := by
    rw [hsame]
    simp [hasAutoIncrement]
  exact if_congr (and_congr_right' hcount) rfl rfl

/-- A table that is prepared has the settings that it ends with, once no id method is left that has nothing to count. -/
theorem settings_prepare_eq (d : Database) (t : Table) :
    (if (t.prepare d).idMethod = .native ∧ (t.prepare d).hasAutoIncrement = false then
      { (t.prepare d).settings with idMethod := some .none }
    else (t.prepare d).settings) = { t.settings.orElse d.settings with idMethod := some (t.finalIdMethod d) } := by
  rw [finalIdMethod_eq]
  split <;> rfl

end Table

namespace Database
variable {d e : Database} {r : Registry} {p : Platform} {limit : Nat} {ran : List HookRun} {t u v : Table}

namespace Alone

theorem counts (h : d.Alone p t u) : u.idMethod = .native → u.hasAutoIncrement = true := by
  obtain ⟨t₁, t₂, v, -, hdrop, hkeys, hindices⟩ := h
  have hv := hkeys.grows.counts (Table.gives_dropUnusedIdMethod hdrop).2
  exact (Table.gives_addMissingIndices id (fun _ _ _ => Table.gives_addKeyIndex.mp) hindices).1.counts hv

theorem filled (h : d.Alone p t u) (hd : (t.foreignKeys.map (·.name)).Nodup) :
    List.Forall₂ ForeignKey.Filled t.foreignKeys u.foreignKeys := by
  have hkeys := h.foreignKeys hd
  obtain ⟨t₁, t₂, v, hheavy, hdrop, hcompletes, -⟩ := h
  rw [Table.foreignKeys_dropUnusedIdMethod hdrop, Table.foreignKeys_addHeavyIndices hheavy] at hcompletes
  rw [hkeys, List.forall₂_map_right_iff, List.forall₂_same]
  intro k hk
  unfold ForeignKey.Filled
  obtain ⟨foreign, hforeign⟩ := hcompletes.target
  split
  · rename_i hpairs
    have himplicit : k.isImplicit = true := List.isEmpty_iff.mpr hpairs
    obtain ⟨htarget, hpk⟩ := hforeign k (List.mem_filter.mpr ⟨hk, himplicit⟩)
    rw [completedKey_of_implicit himplicit htarget]
    refine ⟨_, ?_, rfl⟩
    rw [Table.hasPrimaryKey_eq] at hpk
    simpa [Table.implicitReferences] using hpk
  · rename_i hpairs
    have hexplicit : k.isImplicit = false := List.isEmpty_eq_false_iff.mpr hpairs
    exact completedKey_of_explicit hexplicit

theorem columns (h : (prepareTables d).Alone p (t.prepare d) u) :
    t.columns.map (·.clearReferrers) <+: u.columns.map (·.clearReferrers) := by
  obtain ⟨new, hcolumns, -⟩ := h.grows.columns
  have hprepared : (t.prepare d).columns.map (·.clearReferrers) = t.columns.map (·.clearReferrers) := by
    have := List.map_map (f := Column.clearReferrers) (g := Column.clearReferrers) (l := t.columns)
    exact this
  rw [hcolumns, List.map_append, hprepared]
  exact List.prefix_append _ _

theorem settings (h : (prepareTables d).Alone p (t.prepare d) u) :
    u.settings = { t.settings.orElse d.settings with idMethod := some (t.finalIdMethod d) } := by
  rw [h.grows.settings_eq h.counts, Table.settings_prepare_eq]

/-- A table of a prepared database, but for its back edges. -/
theorem conserves (h : (prepareTables d).Alone p (t.prepare d) u) (hv : v.bare = u.bare)
    (hd : (t.foreignKeys.map (·.name)).Nodup) : t.Conserves d v := by
  have hext := h.grows
  have hsettings := (Table.settings_of_bare hv).trans h.settings
  refine
    { columns := ?_
      foreignKeys := ?_
      indices := ?_
      nameSpace := ?_
      idMethod := congrArg OwnSettings.idMethod hsettings
      heavyIndexing := congrArg OwnSettings.heavyIndexing hsettings
      identifierQuoting := congrArg OwnSettings.identifierQuoting hsettings
      stringFormat := congrArg OwnSettings.stringFormat hsettings
      accessorVisibility := congrArg OwnSettings.accessorVisibility hsettings
      mutatorVisibility := congrArg OwnSettings.mutatorVisibility hsettings
      counts := fun hnative => ?_
      rest := ?_ }
  · have hsame : v.columns.map (·.clearReferrers) = u.columns.map (·.clearReferrers) := by
      rw [← Table.bare_columns, hv, Table.bare_columns]
    exact hsame ▸ h.columns
  · rw [Table.foreignKeys_of_bare hv]
    exact h.filled hd
  · rw [Table.indices_of_bare hv]
    exact hext.indices
  · have hfixed := congrArg Table.nameSpace hext.fixed
    have hbare := congrArg Table.nameSpace hv
    exact hbare.trans hfixed
  · have hmethod : u.idMethod = .native := by
      rw [Table.idMethod, ← Table.settings_of_bare hv, hnative]
      rfl
    have hauto := h.counts hmethod
    rw [← Table.hasAutoIncrement_of_bare hv] at hauto
    exact List.any_eq_true.mp hauto
  · have hbare := congrArg Table.untouched hv
    have hfixed := congrArg Table.untouched hext.fixed
    exact hbare.trans hfixed

end Alone

/-! ### Databases -/

/-- Finalization of a database without pending behaviors keeps all that is the database's own, the tables with
    their names and their order, and in each table all that was there. -/
theorem finalize_conserves (hd : d.DistinctNames) (hq : d.Quiet) (h : (finalize limit r p).Gives d ran e) :
    ran = [] ∧ { e with tables := d.tables } = d ∧ e.tableNames = d.tableNames ∧
      List.Forall₂ (Table.Conserves d) d.tables e.tables := by
  obtain ⟨-, rfl, hrun⟩ := hq.gives_finalize.mp h
  have hreached := reached_finalizeTables hrun
  have hnames : (prepareTables d).tableNames = d.tableNames := List.map_map
  have hlength : (prepareTables d).tables.length = d.tables.length := List.length_map _
  refine ⟨rfl, ?_, hreached.grows.tableNames.trans hnames, ?_⟩
  · have hrest := congrArg (fun e : Database => { e with tables := d.tables }) hreached.grows.rest
    exact hrest
  · refine List.forall₂_iff_get.mpr ⟨(hreached.grows.length.trans hlength).symm, fun i hi hi' => ?_⟩
    have hprepared : (prepareTables d).tables[i]? = some (d.tables[i].prepare d) := by
      rw [prepareTables, List.getElem?_map, List.getElem?_eq_getElem hi, Option.map_some]
    obtain ⟨u, v, halone, hv, hbare⟩ := hreached.done i (hlength ▸ hi) _ hprepared
    obtain rfl : e.tables[i] = v := Option.some.inj ((List.getElem?_eq_getElem hi').symm.trans hv)
    exact halone.conserves hbare (hd.inTables _ (List.getElem_mem hi)).foreignKeys

/-- Ships are known by their number and their port. Their captain is known by an implicit key, and their sister by
    an explicit one. They leave all settings to the fleet, sailors only some. -/
def fleet : Database where
  name := "fleet"
  settings :=
    { heavyIndexing := true
      identifierQuoting := true
      stringFormat := .json
      accessorVisibility := .subclasses
      mutatorVisibility := .itself }
  nameSpace := some "Sea"
  tables :=
    [{ name := "ship"
       columns :=
         [{ name := "number", domain := { type := .integer }, primaryKey := true, notNull := true },
          { name := "port", primaryKey := true, notNull := true },
          { name := "sister", domain := { type := .integer } }]
       foreignKeys :=
         [{ name := "captain", target := "sailor", table := "ship" },
          { name := "sister", target := "ship", references := [⟨"sister", "number"⟩], table := "ship" }]
       uniques := [{ ownName := some "ship_u_sister", columns := [{ name := "sister" }] }] },
     { name := "sailor"
       nameSpace := some "Crew"
       settings := { heavyIndexing := some false, stringFormat := some .xml, mutatorVisibility := some .everyone }
       columns :=
         [{ name := "id", domain := { type := .integer }, primaryKey := true, autoIncrement := true, notNull := true }]
       behaviors := [{ name := "timestampable", id := "stamps", table := some "sailor", executed := true }] }]

def finalizedFleet : Database :=
  (finalize settleLimit .builtin (.mysql "InnoDB") fleet).state

theorem finalize_conserves_fleet :
    fleet.DistinctNames ∧ fleet.Quiet ∧
      (finalize settleLimit .builtin (.mysql "InnoDB")).Gives fleet [] finalizedFleet ∧
      finalizedFleet.tables.map (fun t => (t.name, t.nameSpace, t.columns.length, t.indices.length)) =
        [("ship", some "Sea", 4, 2), ("sailor", some "Crew", 1, 0)] ∧
      finalizedFleet.tables.map (·.settings) =
        [{ idMethod := some .none
           heavyIndexing := some true
           identifierQuoting := some true
           stringFormat := some .json
           accessorVisibility := some .subclasses
           mutatorVisibility := some .itself },
         { idMethod := some .native
           heavyIndexing := some false
           identifierQuoting := some true
           stringFormat := some .xml
           accessorVisibility := some .subclasses
           mutatorVisibility := some .everyone }] ∧
      { finalizedFleet with tables := fleet.tables } = fleet ∧
      List.Forall₂ (Table.Conserves fleet) fleet.tables finalizedFleet.tables := by
  have hd : fleet.DistinctNames := by decide
  have hq : fleet.Quiet := ⟨rfl, rfl⟩
  have h : (finalize settleLimit .builtin (.mysql "InnoDB")).Gives fleet [] finalizedFleet := ⟨rfl, rfl⟩
  obtain ⟨-, hrest, -, htables⟩ := finalize_conserves hd hq h
  exact ⟨hd, hq, h, rfl, rfl, hrest, htables⟩

end Database

end Schemata
