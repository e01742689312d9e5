import Schemata.Proofs.Reached
import Schemata.Proofs.References

/-!
# The same tables in another order

With distinct names and qualified names, which table a key means does not depend on the order of the
tables, and neither does what finalization makes of a table by itself. So a finalized database has the
same tables whatever the order was, but for the order of back edges (`finalize_reordered`).
-/

namespace Schemata

/-- `u` is `t`, perhaps with its back edges in another order. -/
structure Table.Agrees (t u : Table) : Prop where
  rest : u.clearReferrers = t.clearReferrers
  referrers : u.referrers.Perm t.referrers
  columns : List.Forall₂ (fun c b : Column => b.referrers.Perm c.referrers) t.columns u.columns

theorem mem_collectIds {id : KeyId} {ids : List KeyId} : id ∈ collectIds ids ↔ id ∈ ids := by
  induction ids using List.reverseRecOn with
  | nil => simp [collectIds]
  | append_singleton ids i ih =>
    rw [collectIds_concat, addKeyId]
    split
    · rename_i hi
      rw [ih, List.mem_append, List.mem_singleton, iff_self_or]
      rintro rfl
      exact ih.mp hi
    · rw [List.mem_append, ih, List.mem_append]

theorem nodup_collectIds (ids : List KeyId) : (collectIds ids).Nodup := by
  induction ids using List.reverseRecOn with
  | nil => simp [collectIds]
  | append_singleton ids i ih =>
    rw [collectIds_concat, addKeyId]
    split
    · exact ih
    · rename_i hi
      rw [← List.concat_eq_append]
      exact ih.concat hi

theorem collectIds_perm {ids ids' : List KeyId} (h : ∀ id, id ∈ ids' ↔ id ∈ ids) :
    (collectIds ids').Perm (collectIds ids) := by
  refine (List.perm_ext_iff_of_nodup (nodup_collectIds ids') (nodup_collectIds ids)).mpr fun id => ?_
  rw [mem_collectIds, mem_collectIds, h]

namespace Database
variable {d d' e e' : Database} {p : Platform} {pos : Nat} {t u : Table} {k : ForeignKey} {ks : List ForeignKey}

/-- `d'` is `d` with its tables in another order. -/
structure Reorders (d d' : Database) : Prop where
  rest : { d' with tables := [] } = { d with tables := [] }
  tables : d'.tables.Perm d.tables

namespace Reorders

theorem symm (h : d.Reorders d') : d'.Reorders d :=
  ⟨h.rest.symm, h.tables.symm⟩

theorem tableNames (h : d.Reorders d') : d'.tableNames.Perm d.tableNames :=
  h.tables.map Table.name

theorem distinctNames (h : d.Reorders d') (hd : d.DistinctNames) : d'.DistinctNames where
  tables := h.tableNames.nodup_iff.mpr hd.tables
  inTables := fun t ht => hd.inTables t (h.tables.mem_iff.mp ht)

theorem quiet (h : d.Reorders d') (hd : d.Quiet) : d'.Quiet where
  own := by
    have hown : d'.behaviors = d.behaviors := by
      have := congrArg Database.behaviors h.rest
      exact this
    rw [pendingBehaviors, hown]
    exact hd.own
  inTables := by
    refine List.eq_nil_iff_forall_not_mem.mpr fun key hkey => ?_
    obtain ⟨t, ht, hb⟩ := mem_pendingTableBehaviors.mp hkey
    have hmem := mem_pendingTableBehaviors.mpr ⟨t, h.tables.mem_iff.mp ht, hb⟩
    rw [hd.inTables] at hmem
    cases hmem

theorem prepareTables (h : d.Reorders d') : (prepareTables d).Reorders (prepareTables d') := by
  have hprepare : Table.prepare d' = Table.prepare d := by
    have := congrArg Table.prepare h.rest
    exact this
  refine ⟨h.rest, ?_⟩
  show (d'.tables.map (Table.prepare d')).Perm (d.tables.map (Table.prepare d))
  rw [hprepare]
  exact h.tables.map _

end Reorders

/-! ### What a key means -/

theorem getElem?_unique (hn : d.tableNames.Nodup) {i : Nat} (ht : d.tables[pos]? = some t) (hi : d.tables[i]? = some t) :
    i = pos :=
  (List.getElem?_inj (List.getElem?_eq_some_iff.mp hi).1 (List.Nodup.of_map _ hn)).mp (hi.trans ht.symm)

theorem resolve?_iff (hn : d.tableNames.Nodup) (ht : d.tables[pos]? = some t) :
    d.resolve? k = some pos ↔ d.target? k = some t := by
  rw [target?_eq_some]
  constructor
  · exact fun h => ⟨pos, h, ht⟩
  · rintro ⟨i, hres, hi⟩
    rwa [getElem?_unique hn ht hi] at hres

theorem Reorders.target? (h : d.Reorders d') (hn : d.tableNames.Nodup) (hq : (d.tables.map (·.qualifiedName)).Nodup)
    (k : ForeignKey) : d'.target? k = d.target? k := by
  have hn' : d'.tableNames.Nodup := h.tableNames.nodup_iff.mpr hn
  have hq' : (d'.tables.map (·.qualifiedName)).Nodup := (h.tables.map Table.qualifiedName).nodup_iff.mpr hq
  have hmem : ∀ u, u ∈ d'.tables ↔ u ∈ d.tables := fun u => h.tables.mem_iff
  have hanswers : ∀ name t, d'.Answers name t ↔ d.Answers name t := fun name t => by
    have hname : d'.tables.find? (·.name == name) = some t ↔ d.tables.find? (·.name == name) = some t := by
      rw [find?_eq_some_iff_of_nodup hn', find?_eq_some_iff_of_nodup hn, hmem]
    have hqualified : d'.tables.find? (·.qualifiedName == name) = some t ↔ d.tables.find? (·.qualifiedName == name) = some t := by
      rw [find?_eq_some_iff_of_nodup hq', find?_eq_some_iff_of_nodup hq, hmem]
    constructor
    · rintro (h | ⟨hnone, h⟩)
      · exact .byName (hname.mp h)
      · exact .qualified (fun u hu => hnone u ((hmem u).mpr hu)) (hqualified.mp h)
    · rintro (h | ⟨hnone, h⟩)
      · exact .byName (hname.mpr h)
      · exact .qualified (fun u hu => hnone u ((hmem u).mp hu)) (hqualified.mpr h)
  have hpoints : ∀ t, d'.PointsAt k t ↔ d.PointsAt k t := fun t => by
    constructor
    · rintro (h | ⟨hnone, schema, hs, h⟩)
      · exact .target ((hanswers _ _).mp h)
      · exact .inSchema (fun u hu => hnone u ((hanswers _ _).mpr hu)) schema hs ((hanswers _ _).mp h)
    · rintro (h | ⟨hnone, schema, hs, h⟩)
      · exact .target ((hanswers _ _).mpr h)
      · exact .inSchema (fun u hu => hnone u ((hanswers _ _).mp hu)) schema hs ((hanswers _ _).mpr h)
  refine Option.ext fun t => ?_
  rw [target?_eq_some, target?_eq_some, ← pointsAt_iff, ← pointsAt_iff, hpoints]

/-- What finalization makes of a table by itself depends on what keys mean, not on positions. -/
theorem Alone.reordered (h : d.Alone p t u) (ho : d.Reorders d') (hn : d.tableNames.Nodup)
    (hq : (d.tables.map (·.qualifiedName)).Nodup) : d'.Alone p t u := by
  obtain ⟨t₁, t₂, v, h₁, h₂, hv, hu⟩ := h
  have hkeys : ∀ {ks t v}, d.CompletesKeys ks t v → d'.CompletesKeys ks t v := fun {ks t v} h => by
    induction h with
    | nil t => exact .nil t
    | @cons k _ _ _ _ _ target hasKey first _ ih => exact .cons ((ho.target? hn hq k).trans target) hasKey first ih
  have hvendor : d'.vendor = d.vendor := by
    have := congrArg Database.vendor ho.rest
    exact this
  rw [← extraIndices_congr (e := d') hvendor rfl] at hu
  exact ⟨t₁, t₂, v, h₁, h₂, hkeys hv, hu⟩

/-! ### Two runs -/

section Runs
variable {w w' : Unit}

theorem prepareTables_qualifiedNames (d : Database) :
    (prepareTables d).tables.map (·.qualifiedName) = d.tables.map (·.qualifiedName) := by
  rw [prepareTables, List.map_map]
  rfl

/-- Each table of one run is there in the other run but for its back edges, and the same keys mean it. -/
theorem bare_reordered (hd : d.DistinctNames) (hq : (d.tables.map (·.qualifiedName)).Nodup) (ho : d.Reorders d')
    (h : (finalizeTables p).Gives (prepareTables d) w e) (h' : (finalizeTables p).Gives (prepareTables d') w' e')
    (ht : e.tables[pos]? = some t) :
    ∃ i u, e'.tables[i]? = some u ∧ u.bare = t.bare ∧ ∀ k, e'.resolve? k = some i ↔ e.resolve? k = some pos := by
  have hm := ho.prepareTables
  have hn := (prepareTables_distinctNames hd).tables
  rw [← prepareTables_qualifiedNames] at hq
  have r := reached_finalizeTables h
  have r' := reached_finalizeTables h'
  obtain ⟨t₀, ht₀, -⟩ := forall₂_getElem? r.grows.tables ht
  obtain ⟨i, ht₀'⟩ := List.getElem?_of_mem (hm.tables.mem_iff.mpr (List.mem_of_getElem? ht₀))
  obtain ⟨v, t', hv, ht', hbare⟩ := r.done pos (List.getElem?_eq_some_iff.mp ht₀).1 t₀ ht₀
  obtain ⟨v', u, hv', hu, hbare'⟩ := r'.done i (List.getElem?_eq_some_iff.mp ht₀').1 t₀ ht₀'
  rw [ht] at ht'
  cases ht'
  -- Both runs make the same of the declared table.
  rw [(hv.reordered hm hn hq).unique hv', ← hbare] at hbare'
  refine ⟨i, u, hu, hbare', fun k => ?_⟩
  rw [r'.grows.resolve?, r.grows.resolve?, resolve?_iff (hm.tableNames.nodup_iff.mpr hn) ht₀', resolve?_iff hn ht₀,
    hm.target? hn hq]

theorem mem_keys_reordered (hd : d.DistinctNames) (hq : (d.tables.map (·.qualifiedName)).Nodup) (ho : d.Reorders d')
    (h : (finalizeTables p).Gives (prepareTables d) w e) (h' : (finalizeTables p).Gives (prepareTables d') w' e')
    (hk : k ∈ e.keys) : k ∈ e'.keys := by
  obtain ⟨t, ht, hkt⟩ := List.mem_flatMap.mp hk
  obtain ⟨pos, hpos⟩ := List.getElem?_of_mem ht
  obtain ⟨i, u, hu, hbare, -⟩ := bare_reordered hd hq ho h h' hpos
  exact List.mem_flatMap.mpr ⟨u, List.mem_of_getElem? hu, Table.foreignKeys_of_bare hbare ▸ hkt⟩

theorem agrees_reordered (hd : d.DistinctNames) (hq : (d.tables.map (·.qualifiedName)).Nodup) (ho : d.Reorders d')
    (h : (finalizeTables p).Gives (prepareTables d) w e) (h' : (finalizeTables p).Gives (prepareTables d') w' e')
    (ht : t ∈ e.tables) : ∃ u ∈ e'.tables, u.name = t.name ∧ t.Agrees u := by
  obtain ⟨pos, hpos⟩ := List.getElem?_of_mem ht
  obtain ⟨i, u, hu, hbare, hto⟩ := bare_reordered hd hq ho h h' hpos
  refine ⟨u, List.mem_of_getElem? hu, (Table.Grows.of_bare hbare).name, ?_⟩
  have hkeys : ∀ k, k ∈ e'.keysTo e'.keys i ↔ k ∈ e.keysTo e.keys pos := fun k => by
    have hq' : (d'.tables.map (·.qualifiedName)).Nodup := (ho.tables.map Table.qualifiedName).nodup_iff.mpr hq
    have hmem : k ∈ e'.keys ↔ k ∈ e.keys :=
      ⟨mem_keys_reordered (ho.distinctNames hd) hq' ho.symm h' h, mem_keys_reordered hd hq ho h h'⟩
    simp only [keysTo, List.mem_filter, hmem, beq_iff_eq, hto]
  -- Back edges are a function of the rest, and here the keys are the same up to their order.
  have het := (gives_finalizeTables hd h).eq_edged hpos
  have heu := (gives_finalizeTables (ho.distinctNames hd) h').eq_edged hu
  rw [hbare] at heu
  have hids : ∀ {l l' : List ForeignKey}, (∀ k, k ∈ l' ↔ k ∈ l) →
      (collectIds (l'.map (·.id))).Perm (collectIds (l.map (·.id))) := fun {l l'} hl => by
    refine collectIds_perm fun id => ?_
    simp only [List.mem_map, hl]
  rw [het, heu]
  refine ⟨?_, hids hkeys, ?_⟩
  · simp [edged, Table.clearReferrers, Column.clearReferrers, Function.comp_def]
  · rw [edged, edged, List.forall₂_map_left_iff, List.forall₂_map_right_iff, List.forall₂_same]
    intro c _
    refine hids fun k => ?_
    simp only [List.mem_filter, hkeys]

end Runs

end Database

end Schemata
