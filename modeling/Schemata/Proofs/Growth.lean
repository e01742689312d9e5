import Mathlib.Data.List.Nodup
import Schemata.Finalize.ImplicitKey
import Schemata.Proofs.Lookup

/-!
# How tables grow

Finalizing adds to a table and takes nothing away: columns and indices at the end of their lists, pairs
at the end of keys. `Table.Extends` says so of a step that leaves the back edges as they are. Linking
changes nothing else than back edges, so a table without them, `Table.bare`, is extended by every step
(`Table.Grows`).
-/

namespace Schemata

/-- A column like those that finalization adds: outside the primary key, without counting and without
    back edges. -/
structure Column.IsPlain (c : Column) : Prop where
  primaryKey : c.primaryKey = false
  autoIncrement : c.autoIncrement = false
  referrers : c.referrers = []

/-- `l` is `k`, perhaps with more pairs. -/
def ForeignKey.Completes (k l : ForeignKey) : Prop :=
  ∃ rs, l = { k with references := k.references ++ rs }

namespace ForeignKey.Completes
variable {k l m : ForeignKey}

theorem refl (k : ForeignKey) : k.Completes k :=
  ⟨[], by simp⟩

theorem trans (h : k.Completes l) (h' : l.Completes m) : k.Completes m := by
  obtain ⟨rs, rfl⟩ := h
  obtain ⟨ss, rfl⟩ := h'
  exact ⟨rs ++ ss, by simp⟩

theorem name (h : k.Completes l) : l.name = k.name := by
  obtain ⟨rs, rfl⟩ := h
  rfl

end ForeignKey.Completes

namespace Table

/-- A table with nothing but what finalization leaves as it is, and its own back edges. -/
def fixed (t : Table) : Table :=
  { t with settings := {}, columns := [], foreignKeys := [], indices := [], containsForeignKey := false }

/-- `u` is `t` with plain columns, indices and pairs of keys added, perhaps without an id method that
    has nothing to count. -/
structure Extends (t u : Table) : Prop where
  fixed : u.fixed = t.fixed
  settings : u.settings = t.settings ∨
    t.idMethod = .native ∧ t.hasAutoIncrement = false ∧ u.settings = { t.settings with idMethod := some .none }
  columns : ∃ new, u.columns = t.columns ++ new ∧ ∀ c ∈ new, c.IsPlain
  distinct : (t.columns.map (·.name)).Nodup → (u.columns.map (·.name)).Nodup
  foreignKeys : List.Forall₂ ForeignKey.Completes t.foreignKeys u.foreignKeys
  indices : t.indices <+: u.indices

namespace Extends
variable {t u v : Table}

theorem refl (t : Table) : t.Extends t where
  fixed := rfl
  settings := Or.inl rfl
  columns := ⟨[], by simp⟩
  distinct := id
  foreignKeys := List.forall₂_same.mpr fun k _ => .refl k
  indices := List.prefix_refl _

theorem hasAutoIncrement (h : t.Extends u) : u.hasAutoIncrement = t.hasAutoIncrement := by
  obtain ⟨new, hcols, hplain⟩ := h.columns
  have hnew : new.any (·.autoIncrement) = false := by
    rw [List.any_eq_false]
    intro c hc
    simp [(hplain c hc).autoIncrement]
  simp only [Table.hasAutoIncrement, hcols, List.any_append, hnew, Bool.or_false]

theorem primaryKey (h : t.Extends u) : u.primaryKey = t.primaryKey := by
  obtain ⟨new, hcols, hplain⟩ := h.columns
  have hnew : new.filter (·.primaryKey) = [] := by
    rw [List.filter_eq_nil_iff]
    intro c hc
    simp [(hplain c hc).primaryKey]
  simp only [Table.primaryKey, hcols, List.filter_append, hnew, List.append_nil]

theorem hasColumn (h : t.Extends u) {name : String} (hn : t.hasColumn name = true) : u.hasColumn name = true := by
  obtain ⟨new, hcols, -⟩ := h.columns
  simp only [Table.hasColumn, hcols, List.any_append, Bool.or_eq_true] at hn ⊢
  exact Or.inl hn

theorem hasIndexOver (h : t.Extends u) {names : List String} (hn : t.hasIndexOver names = true) :
    u.hasIndexOver names = true := by
  obtain ⟨new, hidx⟩ := h.indices
  simp only [Table.hasIndexOver, ← hidx, List.any_append, Bool.or_eq_true] at hn ⊢
  exact Or.inl hn

theorem keyNames (h : t.Extends u) : u.foreignKeys.map (·.name) = t.foreignKeys.map (·.name) :=
  map_eq_of_forall₂ h.foreignKeys fun _ _ hk => hk.name

theorem trans (h : t.Extends u) (h' : u.Extends v) : t.Extends v where
  fixed := h'.fixed.trans h.fixed
  settings := by
    rcases h.settings with hs | ⟨hn, ha, hs⟩
    · rcases h'.settings with hs' | ⟨hn', ha', hs'⟩
      · exact Or.inl (hs'.trans hs)
      · refine Or.inr ⟨?_, h.hasAutoIncrement ▸ ha', by rw [hs', hs]⟩
        simpa [Table.idMethod, hs] using hn'
    · rcases h'.settings with hs' | ⟨hn', -, -⟩
      · exact Or.inr ⟨hn, ha, hs'.trans hs⟩
      · simp [Table.idMethod, hs] at hn'
  columns := by
    obtain ⟨new, hcols, hplain⟩ := h.columns
    obtain ⟨new', hcols', hplain'⟩ := h'.columns
    refine ⟨new ++ new', by rw [hcols', hcols, List.append_assoc], fun c hc => ?_⟩
    rcases List.mem_append.mp hc with hc | hc
    · exact hplain c hc
    · exact hplain' c hc
  distinct := h'.distinct ∘ h.distinct
  foreignKeys := forall₂_trans ForeignKey.Completes.trans h.foreignKeys h'.foreignKeys
  indices := h.indices.trans h'.indices

/-- One more index. -/
theorem addIndex {i : Index} : t.Extends { t with indices := t.indices ++ [i] } :=
  { refl t with indices := List.prefix_append _ _ }

/-- One more plain column of a new name. -/
theorem addColumn {c : Column} (hc : c.IsPlain) (hn : t.hasColumn c.name = false) :
    t.Extends { t with columns := t.columns ++ [c] } where
  fixed := rfl
  settings := Or.inl rfl
  columns := ⟨[c], rfl, fun c' hc' => by rwa [List.mem_singleton.mp hc']⟩
  distinct := fun hd => by
    have hfresh : c.name ∉ t.columns.map (·.name) := by
      intro hmem
      obtain ⟨c', hc', hname⟩ := List.mem_map.mp hmem
      have := List.any_eq_false.mp hn c' hc'
      simp [hname] at this
    rw [List.map_append, List.map_singleton, ← List.concat_eq_append]
    exact hd.concat hfresh
  foreignKeys := List.forall₂_same.mpr fun k _ => .refl k
  indices := List.prefix_refl _

/-- More pairs for a key. -/
theorem addReferences {key : String} {rs : List Reference} :
    t.Extends (t.modifyForeignKey key fun k => { k with references := k.references ++ rs }) where
  fixed := rfl
  settings := Or.inl rfl
  columns := ⟨[], by simp [modifyForeignKey]⟩
  distinct := id
  foreignKeys := forall₂_modifyFirst ForeignKey.Completes.refl fun _ _ _ => ⟨rs, rfl⟩
  indices := List.prefix_refl _

/-- What the table knows about its primary key. -/
theorem refersByKey {b : Bool} : t.Extends { t with containsForeignKey := b } :=
  { refl t with fixed := rfl }

/-- An id method with nothing to count is given up. -/
theorem dropIdMethod (hn : t.idMethod = .native) (ha : t.hasAutoIncrement = false) :
    t.Extends { t with settings := { t.settings with idMethod := some .none } } :=
  { refl t with settings := Or.inr ⟨hn, ha, rfl⟩ }

end Extends

/-! ### Without back edges -/

/-- A table without its back edges. -/
def bare (t : Table) : Table :=
  { t.clearReferrers with containsForeignKey := false }

section Bare
variable {t u v : Table}

@[simp] theorem bare_settings (t : Table) : t.bare.settings = t.settings := rfl
@[simp] theorem bare_columns (t : Table) : t.bare.columns = t.columns.map (·.clearReferrers) := rfl
@[simp] theorem bare_foreignKeys (t : Table) : t.bare.foreignKeys = t.foreignKeys := rfl
@[simp] theorem bare_indices (t : Table) : t.bare.indices = t.indices := rfl
@[simp] theorem bare_uniques (t : Table) : t.bare.uniques = t.uniques := rfl

@[simp] theorem bare_columnNames (t : Table) : t.bare.columns.map (·.name) = t.columns.map (·.name) := by
  simp [Column.clearReferrers, Function.comp_def]

@[simp] theorem bare_hasColumn (t : Table) (name : String) : t.bare.hasColumn name = t.hasColumn name := by
  simp [hasColumn, Column.clearReferrers, Function.comp_def]

@[simp] theorem bare_hasAutoIncrement (t : Table) : t.bare.hasAutoIncrement = t.hasAutoIncrement := by
  simp [hasAutoIncrement, Column.clearReferrers, Function.comp_def]

@[simp] theorem bare_primaryKeyNames (t : Table) : t.bare.primaryKeyNames = t.primaryKeyNames := by
  simp [primaryKeyNames, primaryKey, Column.clearReferrers, List.filter_map, Function.comp_def]

section Same
variable (h : u.bare = t.bare)
include h

theorem settings_of_bare : u.settings = t.settings := by
  rw [← bare_settings, h, bare_settings]

theorem vendor_of_bare : u.vendor = t.vendor := by
  have := congrArg Table.vendor h
  exact this

theorem foreignKeys_of_bare : u.foreignKeys = t.foreignKeys := by
  rw [← bare_foreignKeys, h, bare_foreignKeys]

theorem indices_of_bare : u.indices = t.indices := by
  rw [← bare_indices, h, bare_indices]

theorem uniques_of_bare : u.uniques = t.uniques := by
  rw [← bare_uniques, h, bare_uniques]

theorem hasAutoIncrement_of_bare : u.hasAutoIncrement = t.hasAutoIncrement := by
  rw [← bare_hasAutoIncrement, h, bare_hasAutoIncrement]

end Same

theorem Extends.bare (h : t.Extends u) : t.bare.Extends u.bare where
  fixed := by
    have := congrArg (fun t : Table => { t with referrers := [] }) h.fixed
    exact this
  settings := by
    simp only [idMethod, bare_settings, bare_hasAutoIncrement]
    exact h.settings
  columns := by
    obtain ⟨new, hcols, hplain⟩ := h.columns
    refine ⟨new.map (·.clearReferrers), by simp [hcols], fun c hc => ?_⟩
    obtain ⟨c', hc', rfl⟩ := List.mem_map.mp hc
    exact ⟨(hplain c' hc').primaryKey, (hplain c' hc').autoIncrement, rfl⟩
  distinct := by
    rw [bare_columnNames, bare_columnNames]
    exact h.distinct
  foreignKeys := h.foreignKeys
  indices := h.indices

end Bare

/-- `u` is `t` after a part of its finalization: extended, with other back edges. -/
def Grows (t u : Table) : Prop :=
  t.bare.Extends u.bare

namespace Grows
variable {t u v : Table}

theorem refl (t : Table) : t.Grows t :=
  Extends.refl _

theorem trans (h : t.Grows u) (h' : u.Grows v) : t.Grows v :=
  Extends.trans h h'

theorem of_extends (h : t.Extends u) : t.Grows u :=
  h.bare

theorem of_bare (h : u.bare = t.bare) : t.Grows u := by
  rw [Grows, h]
  exact Extends.refl _

theorem fixed (h : t.Grows u) : u.bare.fixed = t.bare.fixed :=
  Extends.fixed h

theorem name (h : t.Grows u) : u.name = t.name := by
  have := congrArg Table.name h.fixed
  exact this

theorem behaviors (h : t.Grows u) : u.behaviors = t.behaviors := by
  have := congrArg Table.behaviors h.fixed
  exact this

theorem qualifiedName (h : t.Grows u) : u.qualifiedName = t.qualifiedName := by
  have := congrArg Table.qualifiedName h.fixed
  exact this

theorem hasColumn (h : t.Grows u) {name : String} (hn : t.hasColumn name = true) : u.hasColumn name = true := by
  rw [← bare_hasColumn] at hn ⊢
  exact Extends.hasColumn h hn

theorem distinct (h : t.Grows u) (hd : (t.columns.map (·.name)).Nodup) : (u.columns.map (·.name)).Nodup := by
  rw [← bare_columnNames] at hd ⊢
  exact Extends.distinct h hd

theorem keyNames (h : t.Grows u) : u.foreignKeys.map (·.name) = t.foreignKeys.map (·.name) :=
  Extends.keyNames (t := t.bare) (u := u.bare) h

end Grows

end Table

end Schemata
