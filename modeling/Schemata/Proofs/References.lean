import Schemata.Proofs.Finalize

/-!
# References of a finalized database

What generators rely on: each key of a finalized database points at a table of it, and the columns on
both sides exist (`references_resolve`); the back edges of each table and column are those of the keys
that point there, no more and no fewer (`back_edges_exact`).
-/

namespace Schemata.Database
variable {d e : Database} {k : ForeignKey} {t : Table} {name : String}

/-! ### Which table a key means -/

/-- `t` is the table of a name: the first one with the name itself, else with that qualified name. -/
inductive Answers (d : Database) (name : String) (t : Table) : Prop
  | byName (h : d.tables.find? (·.name == name) = some t)
  | qualified (hnone : ∀ u ∈ d.tables, u.name ≠ name) (h : d.tables.find? (·.qualifiedName == name) = some t)

/-- Key `k` means the table `t`: the one of its name, else of its name behind the schema that it gives. -/
inductive PointsAt (d : Database) (k : ForeignKey) (t : Table) : Prop
  | target (h : d.Answers k.target t)
  | inSchema (hnone : ∀ u, ¬d.Answers k.target u) (schema : String) (hs : k.targetSchema = some schema)
      (h : d.Answers (schema ++ "." ++ k.target) t)

theorem answers_iff : d.Answers name t ↔ ∃ pos, d.position? name = some pos ∧ d.tables[pos]? = some t := by
  have hnone : (∀ u ∈ d.tables, u.name ≠ name) ↔ d.tables.findIdx? (·.name == name) = none := by
    simp [List.findIdx?_eq_none_iff]
  unfold position?
  constructor
  · rintro (h | ⟨hn, h⟩)
    · obtain ⟨pos, hpos, ht⟩ := find?_eq_some_iff_findIdx?.mp h
      exact ⟨pos, by rw [hpos, Option.some_or], ht⟩
    · obtain ⟨pos, hpos, ht⟩ := find?_eq_some_iff_findIdx?.mp h
      exact ⟨pos, by rw [hnone.mp hn, Option.none_or, hpos], ht⟩
  · rintro ⟨pos, hpos, ht⟩
    rcases Option.or_eq_some_iff.mp hpos with hpos | ⟨hn, hpos⟩
    · exact .byName (find?_eq_some_iff_findIdx?.mpr ⟨pos, hpos, ht⟩)
    · exact .qualified (hnone.mpr hn) (find?_eq_some_iff_findIdx?.mpr ⟨pos, hpos, ht⟩)

/-- What finalization resolves a key to is the table that the key means. -/
theorem pointsAt_iff : d.PointsAt k t ↔ ∃ pos, d.resolve? k = some pos ∧ d.tables[pos]? = some t := by
  have hnone : (∀ u, ¬d.Answers k.target u) ↔ d.position? k.target = none := by
    rw [Option.eq_none_iff_forall_ne_some]
    constructor
    · intro h pos hpos
      exact h _ (answers_iff.mpr ⟨pos, hpos, List.getElem?_eq_getElem (position?_lt hpos)⟩)
    · intro h u hu
      obtain ⟨pos, hpos, -⟩ := answers_iff.mp hu
      exact h pos hpos
  unfold resolve?
  constructor
  · rintro (h | ⟨hn, schema, hs, h⟩)
    · obtain ⟨pos, hpos, ht⟩ := answers_iff.mp h
      exact ⟨pos, by rw [hpos, Option.some_or], ht⟩
    · obtain ⟨pos, hpos, ht⟩ := answers_iff.mp h
      exact ⟨pos, by rw [hnone.mp hn, Option.none_or, hs, Option.bind_some, hpos], ht⟩
  · rintro ⟨pos, hpos, ht⟩
    rcases Option.or_eq_some_iff.mp hpos with hpos | ⟨hn, hpos⟩
    · exact .target (answers_iff.mpr ⟨pos, hpos, ht⟩)
    · obtain ⟨schema, hs, hpos⟩ := Option.bind_eq_some_iff.mp hpos
      exact .inSchema (hnone.mpr hn) schema hs (answers_iff.mpr ⟨pos, hpos, ht⟩)

/-! ### No dangling reference -/

section Finalize
variable {r : Registry} {p : Platform} {limit : Nat} {ran : List HookRun}

/-- After finalization every key has pairs and points at a table, and the columns of each pair exist. -/
theorem references_resolve (hd : d.DistinctNames) (hr : r.HooksKeep DistinctNames)
    (h : (finalize limit r p).Gives d ran e) :
    ∀ own ∈ e.tables, ∀ k ∈ own.foreignKeys, k.references ≠ [] ∧ ∃ foreign ∈ e.tables, e.PointsAt k foreign ∧
      ∀ pair ∈ k.references, (∃ c ∈ own.columns, c.name = pair.localColumn) ∧
        ∃ c ∈ foreign.columns, c.name = pair.foreignColumn := by
  obtain ⟨m, -, -, hfin⟩ := finalized_of_finalize (hr.settles_of_iff distinctNames_withoutBehaviors) id hd h
  intro own hown k hk
  obtain ⟨pos, hpos⟩ := List.getElem?_of_mem hown
  obtain ⟨hcomplete, -, hres⟩ := hfin.tables pos (List.getElem?_eq_some_iff.mp hpos).1 own hpos
  obtain ⟨own', target, foreign, hown', hto, hforeign, hloc, hfor⟩ := hres k hk
  rw [hpos] at hown'
  cases hown'
  refine ⟨?_, foreign, List.mem_of_getElem? hforeign, pointsAt_iff.mpr ⟨target, hto, hforeign⟩, fun pair hpair => ⟨?_, ?_⟩⟩
  · simpa [ForeignKey.isImplicit] using hcomplete.explicit k hk
  · simpa [Table.hasColumn] using hloc _ (List.mem_map.mpr ⟨pair, hpair, rfl⟩)
  · simpa [Table.hasColumn] using hfor _ (List.mem_map.mpr ⟨pair, hpair, rfl⟩)

theorem references_resolve_library :
    library.DistinctNames ∧ Registry.builtin.HooksKeep DistinctNames ∧
      (finalize settleLimit .builtin (.mysql "InnoDB")).Gives library libraryRuns finalizedLibrary ∧
      ∀ own ∈ finalizedLibrary.tables, ∀ k ∈ own.foreignKeys,
        k.references ≠ [] ∧ ∃ foreign ∈ finalizedLibrary.tables, finalizedLibrary.PointsAt k foreign ∧
          ∀ pair ∈ k.references, (∃ c ∈ own.columns, c.name = pair.localColumn) ∧
            ∃ c ∈ foreign.columns, c.name = pair.foreignColumn := by
  have hd : library.DistinctNames := by decide
  have hr := Registry.builtin_keeps_distinctNames
  exact ⟨hd, hr, library_finalizes, references_resolve hd hr library_finalizes⟩

end Finalize

/-! ### Back edges -/

theorem ownsKeys_prepareTables (hd : d.OwnsKeys) : (prepareTables d).OwnsKeys := by
  intro u hu k hk
  obtain ⟨t, ht, rfl⟩ := List.mem_map.mp hu
  exact hd t ht k hk

/-- Distinct names make the identities of all keys distinct. -/
theorem keyIds_nodup (hd : d.DistinctNames) (ho : d.OwnsKeys) : (d.keys.map (·.id)).Nodup := by
  rw [keys, List.map_flatMap, List.nodup_flatMap]
  constructor
  · intro t ht
    refine List.Nodup.of_map KeyId.name ?_
    rw [List.map_map]
    exact (hd.inTables t ht).foreignKeys
  · have hnames : d.tables.Pairwise fun t u => t.name ≠ u.name := List.pairwise_map.mp hd.tables
    refine hnames.imp_of_mem fun {t u} ht hu hne => ?_
    intro id hid hid'
    obtain ⟨k, hk, rfl⟩ := List.mem_map.mp hid
    obtain ⟨l, hl, hkl⟩ := List.mem_map.mp hid'
    have htable : l.table = k.table := congrArg KeyId.table hkl
    rw [ho t ht k hk, ho u hu l hl] at htable
    exact hne htable.symm

theorem refersByKey_iff (ht : (t.columns.map (·.name)).Nodup) : t.refersByKey = true ↔
    ∃ c ∈ t.columns, c.primaryKey = true ∧ ∃ k ∈ t.foreignKeys, c.name ∈ k.localColumns := by
  have hkey : ∀ name, t.isKeyColumn name = true ↔ ∃ c ∈ t.columns, c.primaryKey = true ∧ c.name = name := fun name => by
    constructor
    · intro h
      cases hc : t.column? name with
      | none => simp [Table.isKeyColumn, hc] at h
      | some c =>
        have hname : c.name = name := by simpa using List.find?_some hc
        exact ⟨c, List.mem_of_find?_eq_some hc, by simpa [Table.isKeyColumn, hc] using h, hname⟩
    · rintro ⟨c, hc, hpk, rfl⟩
      have hfind : t.column? c.name = some c := find?_key ht hc
      simpa [Table.isKeyColumn, hfind] using hpk
  simp only [Table.refersByKey, List.any_eq_true, hkey]
  constructor
  · rintro ⟨k, hk, name, hname, c, hc, hpk, rfl⟩
    exact ⟨c, hc, hpk, k, hk, hname⟩
  · rintro ⟨c, hc, hpk, k, hk, hname⟩
    exact ⟨k, hk, c.name, hname, c, hc, hpk, rfl⟩

section Finalize
variable {r : Registry} {p : Platform} {limit : Nat} {ran : List HookRun} {pos : Nat}

/-- After finalization the back edges of a table and its columns are the identities of the keys that
    point there, each once and in the order of the keys, whatever they were before. -/
theorem back_edges_exact (hd : d.DistinctNames) (ho : d.OwnsKeys)
    (hr : r.HooksKeep fun d => d.DistinctNames ∧ d.OwnsKeys) (h : (finalize limit r p).Gives d ran e)
    (ht : e.tables[pos]? = some t) :
    (t.referrers = ((e.keys.filter (e.resolve? · == some pos)).map (·.id)) ∧ t.referrers.Nodup) ∧
      (∀ c ∈ t.columns,
        c.referrers = ((e.keys.filter fun k => e.resolve? k == some pos && c.name ∈ k.foreignColumns).map (·.id)) ∧
          c.referrers.Nodup) ∧
      (t.containsForeignKey = true ↔
        ∃ c ∈ t.columns, c.primaryKey = true ∧ ∃ k ∈ t.foreignKeys, c.name ∈ k.localColumns) := by
  have hP : ∀ {d : Database}, d.withoutBehaviors.DistinctNames ∧ d.withoutBehaviors.OwnsKeys ↔
      d.DistinctNames ∧ d.OwnsKeys := and_congr distinctNames_withoutBehaviors ownsKeys_withoutBehaviors
  obtain ⟨m, hm, hg, hfin⟩ := finalized_of_finalize (hr.settles_of_iff hP) And.left ⟨hd, ho⟩ h
  have hids := keyIds_nodup hfin.names (hg.ownsKeys (ownsKeys_prepareTables hm.2))
  have hlinked := hfin.linked
  rw [keysBefore_length] at hlinked
  -- No identity repeats, so collecting them drops none.
  have hsub : ∀ q : ForeignKey → Bool, ((e.keys.filter q).map (·.id)).Nodup := fun q =>
    (List.filter_sublist.map _).nodup hids
  have htable := hlinked.tables pos t ht
  rw [keysTo, collectIds_of_nodup (hsub _)] at htable
  refine ⟨⟨htable, htable ▸ hsub _⟩, fun c hc => ?_, ?_⟩
  · have hcol := hlinked.columns pos t ht c hc
    rw [keysTo, List.filter_filter, collectIds_of_nodup (hsub _)] at hcol
    have hcol' : c.referrers =
        (e.keys.filter fun k => e.resolve? k == some pos && c.name ∈ k.foreignColumns).map (·.id) := by
      rw [hcol]
      congr 2
      funext k
      rw [Bool.and_comm]
    exact ⟨hcol', hcol' ▸ hsub _⟩
  · rw [(hfin.tables pos (List.getElem?_eq_some_iff.mp ht).1 t ht).flag]
    exact refersByKey_iff (hfin.names.inTables t (List.mem_of_getElem? ht)).columns

theorem back_edges_exact_library :
    library.DistinctNames ∧ library.OwnsKeys ∧ (Registry.builtin.HooksKeep fun d => d.DistinctNames ∧ d.OwnsKeys) ∧
      (finalize settleLimit .builtin (.mysql "InnoDB")).Gives library libraryRuns finalizedLibrary ∧
      ∃ author, finalizedLibrary.tables[1]? = some author ∧
        author.referrers = ((finalizedLibrary.keys.filter (finalizedLibrary.resolve? · == some 1)).map (·.id)) ∧
        author.referrers.Nodup := by
  have hd : library.DistinctNames := by decide
  have ho : library.OwnsKeys := by decide
  have hr := Registry.builtin_keeps_distinctNames.and Registry.builtin_keeps_ownsKeys
  exact ⟨hd, ho, hr, library_finalizes, _, rfl, (back_edges_exact hd ho hr library_finalizes rfl).1⟩

end Finalize

end Schemata.Database
