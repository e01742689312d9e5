import Schemata.Proofs.Complete

/-!
# Finalized databases

A database is finalized when its tables are and its back edges are those of its keys. Every run over the
tables ends in such a database: after the first `n` positions the first `n` tables are finalized, and the
back edges are those of their keys (`FinalizedTo`).
-/

namespace Schemata

namespace Table
variable {t : Table}

@[simp] theorem bare_refersByKey (t : Table) : t.bare.refersByKey = t.refersByKey := by
  have hkey : t.bare.isKeyColumn = t.isKeyColumn := by
    funext name
    simp [isKeyColumn, column?, List.find?_map, Column.clearReferrers, Function.comp_def]
  simp [refersByKey, hkey]

theorem inherits_prepare (d : Database) (t : Table) : (t.prepare d).Inherits d where
  settings := fun s => OwnSettings.orElse_orElse _ _ _
  nameSpace := by
    show (t.nameSpace.or d.nameSpace).or d.nameSpace = t.nameSpace.or d.nameSpace
    rw [Option.or_assoc, Option.or_self]

theorem prepare_distinctNames {d : Database} (h : t.DistinctNames) : (t.prepare d).DistinctNames where
  columns := by
    show (t.bare.columns.map (·.name)).Nodup
    rw [bare_columnNames]
    exact h.columns
  foreignKeys := h.foreignKeys

end Table

namespace Database
variable {d e : Database} {p : Platform} {pos n : Nat} {w : Unit}

/-! ### Preparing -/

theorem prepareTables_distinctNames (hd : d.DistinctNames) : (prepareTables d).DistinctNames where
  tables := by
    have : (prepareTables d).tableNames = d.tableNames := List.map_map
    rw [this]
    exact hd.tables
  inTables := fun u hu => by
    obtain ⟨t, ht, rfl⟩ := List.mem_map.mp hu
    exact Table.prepare_distinctNames (hd.inTables t ht)

theorem prepareTables_linked (d : Database) : (prepareTables d).Linked [] := by
  refine .nil fun u hu => ?_
  obtain ⟨t, -, rfl⟩ := List.mem_map.mp hu
  refine ⟨rfl, fun c hc => ?_⟩
  obtain ⟨c', -, rfl⟩ := List.mem_map.mp hc
  rfl

/-! ### A run over the tables -/

/-- The keys of the first `n` tables, in the order of tables and then of keys. -/
def keysBefore (d : Database) (n : Nat) : List ForeignKey :=
  (d.tables.take n).flatMap (·.foreignKeys)

/-- The keys of all tables, in the order of tables and then of keys. -/
def keys (d : Database) : List ForeignKey :=
  d.tables.flatMap (·.foreignKeys)

theorem keysBefore_length (d : Database) : d.keysBefore d.tables.length = d.keys := by
  rw [keysBefore, List.take_length, keys]

theorem keysBefore_succ {t : Table} (ht : d.tables[pos]? = some t) :
    d.keysBefore (pos + 1) = d.keysBefore pos ++ t.foreignKeys := by
  rw [keysBefore, List.take_add_one, ht, List.flatMap_append]
  simp [keysBefore]

/-- A step for the table at a position leaves the keys of those before it. -/
theorem GrowsAt.keysBefore (h : GrowsAt pos d e) : e.keysBefore pos = d.keysBefore pos := by
  have hclear : (e.tables.take pos).map (·.clearReferrers) = (d.tables.take pos).map (·.clearReferrers) := by
    apply List.ext_getElem?
    intro i
    rw [List.getElem?_map, List.getElem?_map, List.getElem?_take, List.getElem?_take]
    split
    · rename_i hi
      exact h.others i (Nat.ne_of_lt hi)
    · rfl
  have hkeys : ∀ ts : List Table, (ts.map (·.clearReferrers)).flatMap (·.foreignKeys) = ts.flatMap (·.foreignKeys) :=
    fun ts => by rw [List.flatMap_map]; rfl
  rw [Database.keysBefore, ← hkeys, hclear, hkeys, Database.keysBefore]

/-- A table at another position stays finalized. -/
theorem FinalizedAt.other {i : Nat} {u : Table} (hg : GrowsAt pos d e) (hi : i ≠ pos)
    (h : ∀ t, d.tables[i]? = some t → d.FinalizedAt p i t) (hu : e.tables[i]? = some u) : e.FinalizedAt p i u := by
  obtain ⟨t, ht, -, hclear⟩ := hg.other hi hu
  obtain ⟨hcomplete, hflag, hres⟩ := h t ht
  have hbare := Table.bare_eq_of_clearReferrers hclear
  have hkeys := Table.foreignKeys_of_bare hbare
  have hsame : u.containsForeignKey = t.containsForeignKey := by
    have := congrArg Table.containsForeignKey hclear
    exact this
  refine ⟨(hcomplete.of_bare hbare).of_vendor hg.grows.vendor, ?_, fun k hk => ?_⟩
  · rw [hsame, hflag, ← Table.bare_refersByKey t, ← hbare, Table.bare_refersByKey]
  · exact (hres k (hkeys ▸ hk)).grows hg.grows

/-- The first `n` tables of the database are finalized, and the back edges are those of their keys. -/
structure FinalizedTo (d : Database) (p : Platform) (n : Nat) : Prop where
  names : d.DistinctNames
  inherits : ∀ t ∈ d.tables, t.Inherits d
  tables : ∀ i < n, ∀ t, d.tables[i]? = some t → d.FinalizedAt p i t
  linked : d.Linked (d.keysBefore n)

/-- All tables of the database are finalized, and the back edges are those of their keys. -/
abbrev Finalized (d : Database) (p : Platform) : Prop :=
  d.FinalizedTo p d.tables.length

theorem finalizedTo_zero (hd : d.DistinctNames) : (prepareTables d).FinalizedTo p 0 where
  names := prepareTables_distinctNames hd
  inherits := fun u hu => by
    obtain ⟨t, -, rfl⟩ := List.mem_map.mp hu
    exact ⟨(Table.inherits_prepare d t).settings, (Table.inherits_prepare d t).nameSpace⟩
  tables := fun i hi => absurd hi (Nat.not_lt_zero i)
  linked := prepareTables_linked d

theorem FinalizedTo.step (h : d.FinalizedTo p pos) (hlt : pos < d.tables.length)
    (hf : (finalizeTable p pos).Gives d w e) : e.FinalizedTo p (pos + 1) := by
  have hg := growsAt_finalizeTable hf
  obtain ⟨u, hu, hfin, hlink⟩ := gives_finalizeTable h.names (List.getElem?_eq_getElem hlt) hf
  refine ⟨hg.grows.distinctNames h.names, fun v hv => ?_, fun i hi v hv => ?_, ?_⟩
  · obtain ⟨i, hi⟩ := List.getElem?_of_mem hv
    obtain ⟨t, ht, hgt⟩ := forall₂_getElem? hg.grows.tables hi
    obtain ⟨hset, hns⟩ := hgt.inherits (h.inherits t (List.mem_of_getElem? ht))
    exact ⟨hset, hg.grows.nameSpace ▸ hns⟩
  · rcases Nat.lt_succ_iff_lt_or_eq.mp hi with hi | rfl
    · -- The step writes into tables before it too, but only back edges.
      exact .other hg (Nat.ne_of_lt hi) (h.tables i hi) hv
    · rw [hu] at hv
      cases hv
      exact hfin
  · rw [keysBefore_succ hu, hg.keysBefore]
    exact hlink _ h.linked

theorem grows_finalizeTables (h : (finalizeTables p).Gives d w e) : d.Grows e := by
  simp only [finalizeTables, Change.gives_bind, Change.gives_get] at h
  obtain ⟨_, _, ⟨rfl, rfl⟩, h⟩ := h
  exact h.forEach Grows.refl Grows.trans fun pos _ d e hf => (growsAt_finalizeTable hf).grows

/-- A run over the tables ends in a finalized database. -/
theorem gives_finalizeTables (hd : d.DistinctNames) (h : (finalizeTables p).Gives (prepareTables d) w e) :
    e.Finalized p := by
  have hlen := (grows_finalizeTables h).length
  simp only [finalizeTables, Change.gives_bind, Change.gives_get] at h
  obtain ⟨_, _, ⟨rfl, rfl⟩, h⟩ := h
  have hfin := h.forEach_range
    (fun n e => e.FinalizedTo p n ∧ e.tables.length = (prepareTables d).tables.length)
    (fun pos hpos s t hs hst => by
      have hlen := (growsAt_finalizeTable hst).grows.length
      exact ⟨hs.1.step (hs.2 ▸ hpos) hst, hlen.trans hs.2⟩)
    ⟨finalizedTo_zero hd, rfl⟩
  rw [Finalized, hlen]
  exact hfin.1

end Database

end Schemata
