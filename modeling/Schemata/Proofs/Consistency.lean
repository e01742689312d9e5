import Schemata.Proofs.Steps
import Schemata.Proofs.WellFormed

/-!
# Finalization keeps what is well-formed

Every step of finalization takes consistent tables to consistent tables, an archive is as consistent as
the table that it is a copy of, and no table changes its name. So a database stays well-formed with
consistent tables wherever finalization ends.
-/

namespace Schemata

open Change

/-! ### Tables -/

namespace Table

variable {t u : Table}

namespace SameNames

/-- What differs in back edges alone differs in nothing that the conditions read. -/
theorem of_clearReferrers (h : u.clearReferrers = t.clearReferrers) : t.SameNames u where
  name := congrArg (fun t => t.name) h
  columns := by
    have hcolumns := congrArg (fun t => t.columns.map (·.name)) h
    simpa [clearReferrers, Column.clearReferrers, Function.comp_def] using hcolumns
  foreignKeys := congrArg (fun t => t.foreignKeys.map (·.id)) h
  behaviors := congrArg (fun t => t.behaviors.map fun b => (b.id, b.table)) h
  indices := congrArg (fun t => t.indices) h
  uniques := congrArg (fun t => t.uniques) h

theorem prepare (t : Table) (d : Database) : t.SameNames (t.prepare d) where
  name := rfl
  columns := by simp [Table.prepare, clearReferrers, Column.clearReferrers, Function.comp_def]
  foreignKeys := rfl
  behaviors := rfl
  indices := rfl
  uniques := rfl

theorem modifyBehavior {f : Behavior → Behavior} (hf : ∀ b, ((f b).id, (f b).table) = (b.id, b.table)) (t : Table)
    (id : String) : t.SameNames (t.modifyBehavior id f) :=
  ⟨rfl, rfl, rfl, map_modifyFirst hf t.behaviors, rfl, rfl⟩

theorem modifyForeignKey {f : ForeignKey → ForeignKey} (hf : ∀ k, (f k).id = k.id) (t : Table) (key : String) :
    t.SameNames (t.modifyForeignKey key f) :=
  ⟨rfl, rfl, map_modifyFirst hf t.foreignKeys, rfl, rfl, rfl⟩

end SameNames

theorem name_step {es : List Event} (h : Step t es u) : u.name = t.name := by
  cases h with
  | column _ added =>
    obtain ⟨-, rfl⟩ := addColumn_eq_ok.mp added
    rfl
  | index added =>
    obtain ⟨j, -, rfl⟩ := addIndex_eq_ok.mp added
    rfl
  | behavior added =>
    obtain ⟨rfl, -⟩ := addBehavior_eq_ok added
    rfl
  | link k => exact (SameNames.of_clearReferrers (clearReferrers_link t k)).name
  | told | executed | complete | prepare | dropIdMethod | refer => rfl

theorem consistent_step {es : List Event} (h : Step t es u) (ht : t.Consistent) : u.Consistent := by
  cases h with
  | told => exact ht
  | column _ added => exact ht.addColumn added
  | index added => exact ht.addIndex added
  | behavior added => exact ht.addBehavior added
  | executed id =>
    refine ht.of_sameNames (.modifyBehavior ?_ t id)
    exact fun _ => rfl
  | complete key pairs =>
    refine ht.of_sameNames (.modifyForeignKey ?_ t key)
    exact fun _ => rfl
  | link k => exact ht.of_sameNames (.of_clearReferrers (clearReferrers_link t k))
  | prepare d => exact ht.of_sameNames (.prepare t d)
  | dropIdMethod | refer => exact ht.of_sameNames ⟨rfl, rfl, rfl, rfl, rfl, rfl⟩

theorem consistent_steps {es : List Event} (h : Steps Step t es u) : u.name = t.name ∧ (t.Consistent → u.Consistent) :=
  h.lift ((trail_same Table.name).and (trail_keeps Consistent)) fun hstep => ⟨name_step hstep, consistent_step hstep⟩

theorem Consistent.addMissingIndex {i : Index} (h : t.Consistent) (hadd : t.addMissingIndex i = .ok u) :
    u.Consistent := by
  rcases addMissingIndex_eq_ok.mp hadd with ⟨-, rfl⟩ | ⟨-, hadd⟩
  · exact h
  · exact h.addIndex hadd

end Table

/-! ### Archives -/

namespace Archivable

variable {b : Behavior} {source t u : Table}

theorem consistent_addPlainIndices {us : List Index} (ht : t.Consistent) (h : addPlainIndices t us = .ok u) :
    u.Consistent := by
  induction us generalizing t with
  | nil =>
    cases h
    exact ht
  | cons i us ih =>
    unfold addPlainIndices at h
    split at h
    · rename_i v hv
      exact ih (ht.addMissingIndex hv) h
    · cases h

theorem consistent_withoutAutoIncrement (ht : t.Consistent) : (withoutAutoIncrement t).Consistent := by
  obtain ⟨cs, hcs, hnames⟩ := withoutAutoIncrement_eq t
  rw [hcs]
  exact ht.of_sameNames ⟨rfl, hnames, rfl, rfl, rfl, rfl⟩

theorem consistent_addArchivedColumn (ht : t.Consistent) (h : addArchivedColumn t b = .ok u) : u.Consistent := by
  unfold addArchivedColumn at h
  split at h
  · split at h
    · cases h
      exact ht
    · exact ht.addColumn h
  · cases h
    exact ht

/-- The indices of a copy are over the columns of the copy, whatever their names become. -/
theorem supports_renamedIndex {old new : String} {i : Index} (hi : source.Supports i)
    (hcolumns : source.columns.map (·.name) ⊆ t.columns.map (·.name)) : t.Supports (Table.renamedIndex old new i) := by
  refine hi.mono hcolumns ?_
  unfold Table.renamedIndex
  split
  · dsimp only
    split <;> rfl
  · rfl

theorem consistent_archive {name : String} (hs : source.Consistent) (h : archive source name b = .ok t) :
    t.Consistent := by
  obtain ⟨indexed, hindexed, hcolumn⟩ := bind_eq_ok.mp h
  refine consistent_addArchivedColumn (consistent_withoutAutoIncrement (consistent_addPlainIndices ?_ hindexed)) hcolumn
  -- The copy before its indices are added: it has the columns of the source, and no keys and behaviors.
  have hnames : (source.duplicate name).columns.map (·.name) = source.columns.map (·.name) := by
    simp [Table.duplicate, Table.clearReferrers, Column.clearReferrers, Function.comp_def]
  refine ⟨⟨?_, List.nodup_nil⟩, List.nodup_nil, fun i hi => ?_, fun i hi => absurd hi List.not_mem_nil,
    fun k hk => absurd hk List.not_mem_nil, fun c hc => absurd hc List.not_mem_nil⟩
  · exact hnames ▸ hs.columns
  · obtain ⟨j, hj, rfl⟩ := List.mem_map.mp hi
    exact supports_renamedIndex (hs.indices j hj) (hnames ▸ List.Subset.refl _)

end Archivable

/-! ### Databases -/

namespace Database

variable {d e : Database} {es : List Event}

theorem wellFormed_step (h : Step d es e) (hd : d.WellFormed Table.Consistent) : e.WellFormed Table.Consistent := by
  cases h with
  | told => exact hd
  | table here steps => exact hd.of_forall₂ (forall₂_set (fun _ => ⟨rfl, id⟩) here (Table.consistent_steps steps))
  | tables each =>
    refine hd.of_forall₂ (each.imp fun t u htu => ?_)
    rcases htu with rfl | hstep
    · exact ⟨rfl, id⟩
    · exact ⟨Table.name_step hstep, Table.consistent_step hstep⟩
  | archive free found copied =>
    have hsource := hd.inTables _ (List.mem_of_find?_eq_some found)
    refine hd.addTable (Archivable.consistent_archive hsource copied) (addTable_eq_ok.mpr ⟨?_, rfl⟩)
    rw [(Archivable.archive_eq_ok copied).1]
    exact free
  | executed id =>
    have hids : (d.modifyBehavior id ({ · with executed := true })).behaviors.map (fun b => (b.id, b.table)) =
        d.behaviors.map fun b => (b.id, b.table) :=
      map_modifyFirst (f := fun b : Behavior => { b with executed := true }) (fun _ => rfl) d.behaviors
    refine ⟨hd.tables, hd.domains, ?_, ?_, hd.inTables⟩
    · have hfst := congrArg (List.map Prod.fst) hids
      rw [List.map_map, List.map_map] at hfst
      exact hfst ▸ hd.behaviors
    · exact forall_of_map_eq (P := fun key => key.2 = none) hids hd.ownBehaviors

/-- Wherever finalization ends, names and ids are distinct, indices are over columns that are there, and keys and
    behaviors carry the names of their owners. -/
theorem wellFormed_finalize {d : Database} (hd : d.WellFormed Table.Consistent) (limit : Nat) (p : Platform) :
    (finalize limit .builtin p d).state.WellFormed Table.Consistent :=
  (steps_finalize limit p d).lift (trail_keeps fun d => d.WellFormed Table.Consistent) wellFormed_step hd

/-- Maps are archived, and then one of their keys turns out to point at no table. -/
def atlas : Database where
  name := "atlas"
  behaviors :=
    [{ name := "timestampable", id := "stamps", parameters := Dictionary.ofList Timestampable.plugin.defaults }]
  tables :=
    [{ name := "map"
       columns :=
         [{ name := "id", domain := { type := .integer }, primaryKey := true, notNull := true },
          { name := "title" }]
       foreignKeys := [{ name := "author", target := "person", table := "map" }]
       uniques := [{ ownName := some "map_title", columns := [{ name := "title" }] }]
       behaviors :=
         [{ name := "archivable"
            id := "archivable"
            parameters := Dictionary.ofList
              [("archive_table", "attic"), ("log_archived_at", "yes"), ("archived_at_column", "title")]
            table := some "map" }] }]

theorem wellFormed_finalize_atlas :
    atlas.WellFormed Table.Consistent ∧
      (finalize settleLimit .builtin (.plain .generic) atlas).result =
        .error (.reference (.unknownForeignTable "author" "map" "person" "atlas" ["map", "attic"])) ∧
      ((finalize settleLimit .builtin (.plain .generic) atlas).state.tables.map
          fun t => (t.name, t.columns.map (·.name))) =
        [("map", ["id", "title", "created_at", "updated_at"]), ("attic", ["id", "title"])] ∧
      (finalize settleLimit .builtin (.plain .generic) atlas).state.WellFormed Table.Consistent := by
  have hatlas : atlas.WellFormed Table.Consistent := by decide
  exact ⟨hatlas, by decide +kernel, by decide +kernel, wellFormed_finalize hatlas settleLimit (.plain .generic)⟩

end Database

end Schemata
