import Mathlib.Data.List.Induction
import Schemata.Proofs.DatabaseGrowth

/-!
# Back edges

Linking enters one key after another at the table and the columns that it points at. `Linked d ks` says
that the back edges of `d` are those of the keys `ks`, no more and no fewer, in the order of `ks`; it
holds of a database without back edges and no keys, each linked key adds itself, and whatever else
finalization does keeps it.
-/

namespace Schemata

/-! ### Lists of keys without repeats -/

/-- The identities of a list, each where it occurs first. -/
def collectIds (ids : List KeyId) : List KeyId :=
  ids.foldl (fun seen id => addKeyId id seen) []

theorem collectIds_concat (ids : List KeyId) (id : KeyId) :
    collectIds (ids ++ [id]) = addKeyId id (collectIds ids) := by
  simp [collectIds, List.foldl_append]

theorem addKeyId_self (id : KeyId) (ids : List KeyId) : addKeyId id (addKeyId id ids) = addKeyId id ids := by
  by_cases h : id ∈ ids <;> simp [addKeyId, h]

theorem collectIds_of_nodup {ids : List KeyId} (h : ids.Nodup) : collectIds ids = ids := by
  induction ids using List.reverseRecOn with
  | nil => rfl
  | append_singleton ids id ih =>
    obtain ⟨hids, -, hne⟩ := List.nodup_append.mp h
    have hfresh : id ∉ ids := fun hmem => hne id hmem id (List.mem_singleton_self _) rfl
    rw [collectIds_concat, ih hids, addKeyId, if_neg hfresh]

/-! ### Linking a key to a table -/

namespace Table

theorem foldl_modifyColumn (f : Column → Column) (names : List String) (t : Table) :
    names.foldl (fun t name => t.modifyColumn name f) t =
      { t with columns := names.foldl (fun cs name => modifyFirst (·.name == name) f cs) t.columns } := by
  induction names generalizing t with
  | nil => rfl
  | cons name names ih =>
    rw [List.foldl_cons, ih, List.foldl_cons]
    rfl

/-- Changing the columns of several names once each, where a second change does nothing. -/
theorem foldl_modifyFirst {f : Column → Column} (hname : ∀ c, (f c).name = c.name) (hf : ∀ c, f (f c) = f c)
    (names : List String) {cs : List Column} (hcs : (cs.map (·.name)).Nodup) :
    names.foldl (fun cs name => modifyFirst (·.name == name) f cs) cs =
      cs.map fun c => if c.name ∈ names then f c else c := by
  induction names generalizing cs with
  | nil => simp
  | cons name names ih =>
    have hmap : (cs.map fun c => if c.name = name then f c else c).map (·.name) = cs.map (·.name) := by
      rw [List.map_map]
      refine List.map_congr_left fun c _ => ?_
      rw [Function.comp_apply]
      split <;> simp [hname]
    rw [List.foldl_cons, modifyFirst_eq_map hcs, ih (hmap ▸ hcs), List.map_map]
    refine List.map_congr_left fun c _ => ?_
    by_cases hc : c.name = name
    · by_cases hmem : name ∈ names <;> simp [hc, hname, hf, hmem]
    · simp [hc]

variable {t : Table} {k : ForeignKey}

theorem link_eq (t : Table) (k : ForeignKey) :
    t.link k =
      { t with
        referrers := addKeyId k.id t.referrers
        columns := k.foreignColumns.foldl
          (fun cs name => modifyFirst (·.name == name) (·.addReferrer k.id) cs) t.columns } :=
  foldl_modifyColumn _ _ _

theorem link_columns (ht : (t.columns.map (·.name)).Nodup) :
    (t.link k).columns = t.columns.map fun c => if c.name ∈ k.foreignColumns then c.addReferrer k.id else c := by
  rw [link_eq]
  have hidem : ∀ c : Column, (c.addReferrer k.id).addReferrer k.id = c.addReferrer k.id := fun c => by
    simp [Column.addReferrer, addKeyId_self]
  exact foldl_modifyFirst (f := (·.addReferrer k.id)) (fun _ => rfl) hidem _ ht

@[simp] theorem link_referrers (t : Table) (k : ForeignKey) : (t.link k).referrers = addKeyId k.id t.referrers := by
  rw [link_eq]

/-- Linking changes back edges only. -/
@[simp] theorem clearReferrers_link (t : Table) (k : ForeignKey) : (t.link k).clearReferrers = t.clearReferrers := by
  have hcols : ∀ (names : List String) (cs : List Column),
      (names.foldl (fun cs name => modifyFirst (·.name == name) (·.addReferrer k.id) cs) cs).map (·.clearReferrers) =
        cs.map (·.clearReferrers) := by
    intro names
    induction names with
    | nil => simp
    | cons name names ih =>
      intro cs
      rw [List.foldl_cons, ih]
      exact map_modifyFirst (f := (·.addReferrer k.id)) (g := Column.clearReferrers) (fun _ => rfl) cs
  rw [link_eq]
  simp only [clearReferrers, hcols]

theorem bare_link (t : Table) (k : ForeignKey) : (t.link k).bare = t.bare := by
  rw [bare, clearReferrers_link, ← bare]

theorem Grows.link (t : Table) (k : ForeignKey) : t.Grows (t.link k) :=
  .of_bare (bare_link t k)

end Table

namespace Database

/-! ### The back edges of a list of keys -/

/-- The keys among `ks` that point at the table at a position. -/
def keysTo (d : Database) (ks : List ForeignKey) (pos : Nat) : List ForeignKey :=
  ks.filter (d.resolve? · == some pos)

/-- The back edges of `d` are those of the keys `ks`, whose foreign columns all exist. -/
structure Linked (d : Database) (ks : List ForeignKey) : Prop where
  known : ∀ k ∈ ks, ∀ pos t, d.resolve? k = some pos → d.tables[pos]? = some t →
    ∀ name ∈ k.foreignColumns, t.hasColumn name = true
  tables : ∀ pos t, d.tables[pos]? = some t → t.referrers = collectIds ((d.keysTo ks pos).map (·.id))
  columns : ∀ pos t, d.tables[pos]? = some t → ∀ c ∈ t.columns,
    c.referrers = collectIds (((d.keysTo ks pos).filter (c.name ∈ ·.foreignColumns)).map (·.id))

theorem Grows.keysTo {d e : Database} (h : d.Grows e) (ks : List ForeignKey) (pos : Nat) :
    e.keysTo ks pos = d.keysTo ks pos := by
  unfold Database.keysTo
  simp only [h.resolve?]

theorem keysTo_concat_of_eq {d : Database} {k : ForeignKey} {pos : Nat} (h : d.resolve? k = some pos)
    (ks : List ForeignKey) : d.keysTo (ks ++ [k]) pos = d.keysTo ks pos ++ [k] := by
  simp [keysTo, h]

theorem keysTo_concat_of_ne {d : Database} {k : ForeignKey} {pos : Nat} (h : d.resolve? k ≠ some pos)
    (ks : List ForeignKey) : d.keysTo (ks ++ [k]) pos = d.keysTo ks pos := by
  simp [keysTo, h]

namespace Linked
variable {d : Database} {ks : List ForeignKey}

/-- Without keys there are no back edges. -/
theorem nil (h : ∀ t ∈ d.tables, t.referrers = [] ∧ ∀ c ∈ t.columns, c.referrers = []) : d.Linked [] where
  known := fun k hk => by cases hk
  tables := fun pos t ht => (h t (List.mem_of_getElem? ht)).1
  columns := fun pos t ht => (h t (List.mem_of_getElem? ht)).2

/-- A table that is extended keeps the back edges: nothing points at its new columns. -/
theorem extend (h : d.Linked ks) {pos : Nat} {t u : Table} (ht : d.tables[pos]? = some t) (hu : t.Extends u)
    (hd : (t.columns.map (·.name)).Nodup) : Linked { d with tables := d.tables.set pos u } ks := by
  have hg : d.Grows { d with tables := d.tables.set pos u } := (GrowsAt.of_set ht (.of_extends hu)).grows
  refine ⟨fun k hk i v hres hv name hname => ?_, fun i v hv => ?_, fun i v hv c hc => ?_⟩
  · rw [hg.resolve?] at hres
    rcases getElem?_set_cases hv with ⟨rfl, rfl⟩ | ⟨-, hv⟩
    · exact hu.hasColumn (h.known k hk _ t hres ht name hname)
    · exact h.known k hk i v hres hv name hname
  · rw [hg.keysTo]
    rcases getElem?_set_cases hv with ⟨rfl, rfl⟩ | ⟨-, hv⟩
    · have hsame := congrArg Table.referrers hu.fixed
      exact hsame.trans (h.tables _ t ht)
    · exact h.tables i v hv
  · rw [hg.keysTo]
    rcases getElem?_set_cases hv with ⟨rfl, rfl⟩ | ⟨-, hv⟩
    · obtain ⟨new, hcols, hplain⟩ := hu.columns
      have hdist := hu.distinct hd
      rw [hcols, List.map_append] at hdist
      rw [hcols] at hc
      rcases List.mem_append.mp hc with hc | hc
      · exact h.columns _ t ht c hc
      · -- The name of a new column is none of those that the keys point at.
        have hnone : (d.keysTo ks i).filter (c.name ∈ ·.foreignColumns) = [] := by
          rw [List.filter_eq_nil_iff]
          intro k hk hmem
          obtain ⟨hk, hres⟩ := List.mem_filter.mp hk
          have hcol := h.known k hk i t (by simpa using hres) ht c.name (by simpa using hmem)
          obtain ⟨c', hc', hname⟩ := List.any_eq_true.mp hcol
          exact (List.nodup_append.mp hdist).2.2 c'.name (List.mem_map.mpr ⟨c', hc', rfl⟩) c.name
            (List.mem_map.mpr ⟨c, hc, rfl⟩) (by simpa using hname)
        rw [(hplain c hc).referrers, hnone]
        rfl
    · exact h.columns i v hv c hc

/-- A key that is linked becomes the last of the keys. -/
theorem link (h : d.Linked ks) {k : ForeignKey} {target : Nat} {t : Table} (hres : d.resolve? k = some target)
    (ht : d.tables[target]? = some t) (hknown : ∀ name ∈ k.foreignColumns, t.hasColumn name = true)
    (hd : (t.columns.map (·.name)).Nodup) :
    Linked { d with tables := d.tables.set target (t.link k) } (ks ++ [k]) := by
  have hg : d.Grows { d with tables := d.tables.set target (t.link k) } :=
    (GrowsAt.of_set ht (Table.Grows.link t k)).grows
  have hne : ∀ {i : Nat}, i ≠ target → d.resolve? k ≠ some i := fun hi heq => by
    rw [hres] at heq
    exact hi (Option.some.inj heq).symm
  refine ⟨fun l hl i v hresl hv name hname => ?_, fun i v hv => ?_, fun i v hv c hc => ?_⟩
  · rw [hg.resolve?] at hresl
    have hcol : ∃ u, d.tables[i]? = some u ∧ u.Grows v := by
      rcases getElem?_set_cases hv with ⟨rfl, rfl⟩ | ⟨-, hv⟩
      · exact ⟨t, ht, .link t k⟩
      · exact ⟨v, hv, .refl v⟩
    obtain ⟨u, hu, hgu⟩ := hcol
    refine hgu.hasColumn ?_
    rcases List.mem_append.mp hl with hl | hl
    · exact h.known l hl i u hresl hu name hname
    · obtain rfl := List.mem_singleton.mp hl
      rw [hres] at hresl
      cases hresl
      rw [ht] at hu
      cases hu
      exact hknown name hname
  · rw [hg.keysTo]
    rcases getElem?_set_cases hv with ⟨rfl, rfl⟩ | ⟨hi, hv⟩
    · rw [keysTo_concat_of_eq hres, List.map_append, List.map_singleton, collectIds_concat, Table.link_referrers,
        h.tables _ t ht]
    · rw [keysTo_concat_of_ne (hne hi)]
      exact h.tables i v hv
  · rw [hg.keysTo]
    rcases getElem?_set_cases hv with ⟨rfl, rfl⟩ | ⟨hi, hv⟩
    · rw [Table.link_columns hd] at hc
      obtain ⟨c', hc', rfl⟩ := List.mem_map.mp hc
      have hold := h.columns _ t ht c' hc'
      rw [keysTo_concat_of_eq hres, List.filter_append]
      by_cases hmem : c'.name ∈ k.foreignColumns
      · simp [hmem, Column.addReferrer, hold, collectIds_concat]
      · simp [hmem, hold]
    · rw [keysTo_concat_of_ne (hne hi)]
      exact h.columns i v hv c hc

end Linked

end Database

end Schemata
