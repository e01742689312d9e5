import Schemata.Proofs.Alone

/-!
# How far a run over the tables has come

After the first `n` positions of a run, the first `n` tables are what finalization makes of each by
itself and the others are as declared, all but for their back edges (`Reached`). So a run succeeds when
each table can be finalized by itself and its keys find their columns at the other side, where the
columns of implicit keys count if the table there has had its turn (`finalizeTables_iff`).
-/

namespace Schemata.Database
variable {d s e : Database} {p : Platform} {pos n : Nat} {t u v : Table} {k : ForeignKey} {w : Unit}

theorem bare_set (s : Database) (pos : Nat) (u : Table) :
    ({ s with tables := s.tables.set pos u } : Database).bare =
      { s.bare with tables := s.bare.tables.set pos u.bare } := by
  simp [bare, List.map_set]

theorem bare_hasColumn_congr (h : u.bare = t.bare) (name : String) : u.hasColumn name = t.hasColumn name := by
  rw [← Table.bare_hasColumn u, h, Table.bare_hasColumn]

/-! ### One table -/

/-- The local columns of a key depend on the table, the foreign ones on a table with at least these. -/
theorem Resolved.of_columns (h : d.Resolved pos k) (hres : e.resolve? k = d.resolve? k)
    (hcols : ∀ (i : Nat) t, d.tables[i]? = some t →
      ∃ u, e.tables[i]? = some u ∧ ∀ name, t.hasColumn name = true → u.hasColumn name = true) : e.Resolved pos k := by
  obtain ⟨own, target, foreign, hown, hto, hforeign, hloc, hfor⟩ := h
  obtain ⟨own', hown', hsub⟩ := hcols pos own hown
  obtain ⟨foreign', hforeign', hsub'⟩ := hcols target foreign hforeign
  exact ⟨own', target, foreign', hown', hres.trans hto, hforeign', fun name hn => hsub name (hloc name hn),
    fun name hn => hsub' name (hfor name hn)⟩

/-- The parts of `finalizeTable` before and after linking are those of the table by itself. -/
theorem gives_finalizeTable_iff (hg : d.Grows s) (ht : s.tables[pos]? = some t) :
    (finalizeTable p pos).Gives s w e ↔ ∃ t₁ t₂ v, Table.addHeavyIndices.Gives t () t₁ ∧
      Table.dropUnusedIdMethod.Gives t₁ () t₂ ∧ d.CompletesKeys (t₂.foreignKeys.filter (·.isImplicit)) t₂ v ∧
      ∃ f, (linkKeys pos).Gives { s with tables := s.tables.set pos v } () f ∧ (addKeyIndices p pos).Gives f () e := by
  simp only [finalizeTable, Change.gives_bind, gives_editAt_warnWithoutKey]
  constructor
  · rintro ⟨_, d₁, hheavy, _, d₂, hdrop, _, d₃, hkeys, _, f, hlink, _, g, hidx, rfl⟩
    obtain ⟨t₁, h₁, rfl⟩ := (gives_editAt_of_getElem? ht).mp hheavy
    obtain ⟨ht₁, hg₁, -⟩ := extend_table ht (Table.gives_addHeavyIndices h₁).1 rfl
    obtain ⟨t₂, h₂, rfl⟩ := (gives_editAt_of_getElem? ht₁).mp hdrop
    obtain ⟨ht₂, hg₂, -⟩ := extend_table ht₁ (Table.gives_dropUnusedIdMethod h₂).1 rfl
    obtain ⟨v, hv, rfl⟩ := (gives_completeKeyList_iff (hg.trans (hg₁.trans hg₂).grows) ht₂).mp ((completeKeys_eq ht₂).mp hkeys)
    simp only [List.set_set] at hlink
    exact ⟨t₁, t₂, v, h₁, h₂, hv, f, hlink, hidx⟩
  · rintro ⟨t₁, t₂, v, h₁, h₂, hv, f, hlink, hidx⟩
    obtain ⟨ht₁, hg₁, -⟩ := extend_table ht (Table.gives_addHeavyIndices h₁).1 rfl
    obtain ⟨ht₂, hg₂, -⟩ := extend_table ht₁ (Table.gives_dropUnusedIdMethod h₂).1 rfl
    refine ⟨(), _, (gives_editAt_of_getElem? ht).mpr ⟨t₁, h₁, rfl⟩, (), _, (gives_editAt_of_getElem? ht₁).mpr ⟨t₂, h₂, rfl⟩,
      (), _, (completeKeys_eq ht₂).mpr ((gives_completeKeyList_iff (hg.trans (hg₁.trans hg₂).grows) ht₂).mpr ⟨v, hv, rfl⟩),
      (), f, ?_, (), e, hidx, rfl⟩
    simpa only [List.set_set] using hlink

/-- A table in a run becomes what it becomes by itself, and its keys find their columns. -/
theorem alone_of_finalizeTable (hg : d.Grows s) (ht : s.tables[pos]? = some t) (h : (finalizeTable p pos).Gives s w e) :
    ∃ u, d.Alone p t u ∧ e.bare = ({ s with tables := s.tables.set pos u } : Database).bare ∧
      ∀ k ∈ u.foreignKeys, ({ s with tables := s.tables.set pos u } : Database).Resolved pos k := by
  obtain ⟨t₁, t₂, v, h₁, h₂, hv, f, hlink, hidx⟩ := (gives_finalizeTable_iff hg ht).mp h
  have hlt := (List.getElem?_eq_some_iff.mp ht).1
  have hv' : ({ s with tables := s.tables.set pos v } : Database).tables[pos]? = some v := List.getElem?_set_self hlt
  obtain ⟨v', hvf, hbv, -, hgf, hres, -⟩ := gives_linkKeys hv' hlink
  obtain ⟨f', hf', rfl⟩ := (linkKeys_eq hv').mp hlink
  have hbf := bare_linkKeys hv' hf' Table.refersByKey
  obtain ⟨u', hu', rfl⟩ := (addKeyIndices_eq hvf).mp hidx
  -- Linking has changed back edges only, so the table by itself gets the same indices.
  have hvendor : d.vendor = (f'.modifyTableAt pos fun t => { t with containsForeignKey := t.refersByKey }).vendor :=
    (hgf.grows.vendor.trans hg.vendor).symm
  rw [← extraIndices_congr hvendor hbv.symm] at hu'
  obtain ⟨u, hu, hbu⟩ := (Table.blind_addKeyIndices _).gives hu' hbv.symm
  have hext := (Table.gives_addMissingIndices id (fun _ _ _ => Table.gives_addKeyIndex.mp) hu').1
  have hkeys : u.foreignKeys = v.foreignKeys := by
    rw [(Table.gives_addMissingIndices id (fun _ _ _ => Table.gives_addKeyIndex.mp) hu).2.1]
  have hbare : ({ f'.modifyTableAt pos fun t => { t with containsForeignKey := t.refersByKey } with
      tables := (f'.modifyTableAt pos fun t => { t with containsForeignKey := t.refersByKey }).tables.set pos u' } :
        Database).bare = ({ s with tables := s.tables.set pos u } : Database).bare := by
    rw [bare_set, hbf, bare_set, bare_set, ← hbu]
    simp only [List.set_set]
  refine ⟨u, ⟨t₁, t₂, v, h₁, h₂, hv, hu⟩, hbare, fun k hk => ?_⟩
  exact (hres k (hkeys ▸ hk)).grows ((extend_table hvf hext rfl).2.1.grows.trans (.of_bare hbare.symm))

/-- A table that can be finalized by itself can be finalized in a run, if its keys find their columns. -/
theorem exists_finalizeTable_of_alone (hg : d.Grows s) (ht : s.tables[pos]? = some t) (hu : d.Alone p t u)
    (hres : ∀ k ∈ u.foreignKeys, ({ s with tables := s.tables.set pos u } : Database).Resolved pos k) :
    ∃ e, (finalizeTable p pos).Gives s () e := by
  obtain ⟨t₁, t₂, v, h₁, h₂, hv, hu⟩ := hu
  have hlt := (List.getElem?_eq_some_iff.mp ht).1
  have hv' : ({ s with tables := s.tables.set pos v } : Database).tables[pos]? = some v := List.getElem?_set_self hlt
  obtain ⟨hext, hidx, -⟩ := Table.gives_addMissingIndices id (fun _ _ _ => Table.gives_addKeyIndex.mp) hu
  have hgu : ({ s with tables := s.tables.set pos v } : Database).Grows { s with tables := s.tables.set pos u } := by
    have := (GrowsAt.of_set hv' (.of_extends hext)).grows
    simpa only [List.set_set] using this
  have hresv : ∀ k ∈ v.foreignKeys, ({ s with tables := s.tables.set pos v } : Database).Resolved pos k := by
    intro k hk
    have hku : k ∈ u.foreignKeys := by rwa [hidx]
    -- Indices are all that `u` has more than `v`.
    refine (hres k hku).of_columns (hgu.resolve? k).symm fun i t' ht' => ?_
    rcases getElem?_set_cases ht' with ⟨rfl, rfl⟩ | ⟨hi, ht'⟩
    · refine ⟨v, hv', fun name hn => ?_⟩
      rwa [hidx] at hn
    · exact ⟨t', by rwa [List.getElem?_set_ne (Ne.symm hi)], fun _ => id⟩
  obtain ⟨f, hf⟩ := exists_linkKeyList hresv
  have hlink := (linkKeys_eq (w := ()) hv').mpr ⟨f, hf, rfl⟩
  obtain ⟨v', hvf, hbv, -, hgf, -, -⟩ := gives_linkKeys hv' hlink
  obtain ⟨u', hu', -⟩ := (Table.blind_addKeyIndices _).gives hu hbv
  have hvendor := hgf.grows.vendor.trans hg.vendor
  rw [← extraIndices_congr hvendor hbv] at hu'
  exact ⟨_, (gives_finalizeTable_iff hg ht).mpr
    ⟨t₁, t₂, v, h₁, h₂, hv, _, hlink, (addKeyIndices_eq hvf).mpr ⟨u', hu', rfl⟩⟩⟩

/-! ### All tables -/

/-- A run over the tables of `d` has come to position `n`, and the database at hand is `s`. -/
structure Reached (p : Platform) (d : Database) (n : Nat) (s : Database) : Prop where
  grows : d.Grows s
  done : ∀ i < n, ∀ t, d.tables[i]? = some t → ∃ u v, d.Alone p t u ∧ s.tables[i]? = some v ∧ v.bare = u.bare
  rest : ∀ i, n ≤ i → ∀ t, d.tables[i]? = some t → ∃ v, s.tables[i]? = some v ∧ v.bare = t.bare

/-- Key `k` of the table `u`, which stands at position `i`, finds its columns in a run: those of the
    foreign table count as declared, or as completed from its turn on. -/
def Finds (p : Platform) (d : Database) (i : Nat) (u : Table) (k : ForeignKey) : Prop :=
  ∃ j foreign, d.resolve? k = some j ∧ d.tables[j]? = some foreign ∧ (∀ name ∈ k.localColumns, u.hasColumn name = true) ∧
    ∀ name ∈ k.foreignColumns, foreign.hasColumn name = true ∨
      j ≤ i ∧ ∃ v, d.Alone p foreign v ∧ v.hasColumn name = true

namespace Reached

theorem zero (d : Database) : d.Reached p 0 d where
  grows := .refl d
  done := fun i hi => absurd hi (Nat.not_lt_zero i)
  rest := fun _ _ t ht => ⟨t, ht, rfl⟩

/-- At the end every table is what it becomes by itself, but for its back edges. -/
theorem tables (h : d.Reached p d.tables.length s) :
    List.Forall₂ (fun t v => ∃ u, d.Alone p t u ∧ v.bare = u.bare) d.tables s.tables := by
  refine List.forall₂_iff_get.mpr ⟨h.grows.length.symm, fun i hi hi' => ?_⟩
  obtain ⟨u, v, hu, hv, hbare⟩ := h.done i hi _ (List.getElem?_eq_getElem hi)
  obtain rfl := Option.some.inj ((List.getElem?_eq_getElem hi').symm.trans hv)
  exact ⟨u, hu, hbare⟩

/-- What a key finds in the database at hand. -/
theorem resolved_iff (h : d.Reached p n s) (ht : d.tables[n]? = some t) (hu : d.Alone p t u) :
    ({ s with tables := s.tables.set n u } : Database).Resolved n k ↔ d.Finds p n u k := by
  obtain ⟨v, hv, hvt⟩ := h.rest n (Nat.le_refl n) t ht
  have hlt := (List.getElem?_eq_some_iff.mp hv).1
  have hself : ({ s with tables := s.tables.set n u } : Database).tables[n]? = some u := List.getElem?_set_self hlt
  have hgu : s.Grows { s with tables := s.tables.set n u } := by
    refine (GrowsAt.of_set hv ?_).grows
    exact (Table.Grows.of_bare hvt.symm).trans (.of_extends hu.grows)
  have hres := hgu.resolve? k |>.trans (h.grows.resolve? k)
  constructor
  · rintro ⟨own, j, foreign', hown, hto, hforeign', hloc, hfor⟩
    rw [hself] at hown
    cases hown
    rw [hres] at hto
    obtain ⟨foreign, hforeign, -⟩ := forall₂_getElem? (h.grows.trans hgu).tables hforeign'
    refine ⟨j, foreign, hto, hforeign, hloc, fun name hn => ?_⟩
    have hcol := hfor name hn
    rcases getElem?_set_cases hforeign' with ⟨rfl, rfl⟩ | ⟨hj, hforeign'⟩
    · rw [ht] at hforeign
      cases hforeign
      exact Or.inr ⟨Nat.le_refl _, _, hu, hcol⟩
    · rcases Nat.lt_or_gt_of_ne hj with hlt | hgt
      · obtain ⟨w, v', hw, hv', hbare⟩ := h.done j hlt foreign hforeign
        rw [hforeign'] at hv'
        cases hv'
        exact Or.inr ⟨Nat.le_of_lt hlt, w, hw, bare_hasColumn_congr hbare name ▸ hcol⟩
      · obtain ⟨v', hv', hbare⟩ := h.rest j (Nat.le_of_lt hgt) foreign hforeign
        rw [hforeign'] at hv'
        cases hv'
        exact Or.inl (bare_hasColumn_congr hbare name ▸ hcol)
  · rintro ⟨j, foreign, hto, hforeign, hloc, hfor⟩
    obtain ⟨foreign', hforeign', hg⟩ := getElem?_of_forall₂ (h.grows.trans hgu).tables hforeign
    refine ⟨u, j, foreign', hself, hres.trans hto, hforeign', hloc, fun name hn => ?_⟩
    rcases hfor name hn with hcol | ⟨hj, w, hw, hcol⟩
    · exact hg.hasColumn hcol
    · rcases getElem?_set_cases hforeign' with ⟨rfl, rfl⟩ | ⟨hne, hforeign'⟩
      · rw [ht] at hforeign
        cases hforeign
        rwa [← hu.unique hw]
      · obtain ⟨w', v', hw', hv', hbare⟩ := h.done j (Nat.lt_of_le_of_ne hj hne) foreign hforeign
        rw [hforeign'] at hv'
        cases hv'
        rw [bare_hasColumn_congr hbare name]
        rwa [← hw'.unique hw]

theorem step (h : d.Reached p n s) (ht : d.tables[n]? = some t) (hs : (finalizeTable p n).Gives s w e) :
    d.Reached p (n + 1) e ∧ ∃ u, d.Alone p t u ∧ ∀ k ∈ u.foreignKeys, d.Finds p n u k := by
  obtain ⟨v, hv, hvt⟩ := h.rest n (Nat.le_refl n) t ht
  obtain ⟨u', hu', hbare, hres⟩ := alone_of_finalizeTable h.grows hv hs
  obtain ⟨u, hu, hbu⟩ := hu'.of_bare hvt.symm
  have hat : ∀ i (v : Table), s.tables[i]? = some v →
      ∃ v', e.tables[i]? = some v' ∧ v'.bare = if i = n then u.bare else v.bare := by
    intro i v' hv'
    have hset : ∃ x, (s.tables.set n u')[i]? = some x ∧ x.bare = if i = n then u.bare else v'.bare := by
      by_cases hi : i = n
      · subst hi
        exact ⟨u', List.getElem?_set_self (List.getElem?_eq_some_iff.mp hv').1, by rw [if_pos rfl, hbu]⟩
      · exact ⟨v', by rwa [List.getElem?_set_ne (Ne.symm hi)], by rw [if_neg hi]⟩
    obtain ⟨x, hx, hxb⟩ := hset
    obtain ⟨y, hy, hyb⟩ := getElem?_bare hbare hx
    exact ⟨y, hy, hyb.trans hxb⟩
  refine ⟨⟨h.grows.trans (growsAt_finalizeTable hs).grows, fun i hi t' ht' => ?_, fun i hi t' ht' => ?_⟩, u, hu, fun k hk => ?_⟩
  · rcases Nat.lt_succ_iff_lt_or_eq.mp hi with hi | rfl
    · obtain ⟨x, y, hx, hy, hyx⟩ := h.done i hi t' ht'
      obtain ⟨z, hz, hzb⟩ := hat i y hy
      rw [if_neg (Nat.ne_of_lt hi)] at hzb
      exact ⟨x, z, hx, hz, hzb.trans hyx⟩
    · rw [ht] at ht'
      cases ht'
      obtain ⟨z, hz, hzb⟩ := hat i v hv
      rw [if_pos rfl] at hzb
      exact ⟨u, z, hu, hz, hzb⟩
  · obtain ⟨y, hy, hyt⟩ := h.rest i (Nat.le_of_succ_le hi) t' ht'
    obtain ⟨z, hz, hzb⟩ := hat i y hy
    rw [if_neg (Nat.ne_of_gt hi)] at hzb
    exact ⟨z, hz, hzb.trans hyt⟩
  · refine (h.resolved_iff ht hu).mp ?_
    have hk' : k ∈ u'.foreignKeys := Table.foreignKeys_of_bare hbu ▸ hk
    refine (hres k hk').grows (.of_bare ?_)
    rw [bare_set, bare_set, hbu]

end Reached

theorem finalizeTables_eq : (finalizeTables p).Gives d w e ↔
    (Change.forEach (finalizeTable p) (List.range d.tables.length)).Gives d w e := by
  simp only [finalizeTables, Change.gives_bind, Change.gives_get]
  constructor
  · rintro ⟨_, _, ⟨rfl, rfl⟩, h⟩
    exact h
  · exact fun h => ⟨d, d, ⟨rfl, rfl⟩, h⟩

/-- A run over the tables ends with each table as it becomes by itself. -/
theorem reached_finalizeTables (h : (finalizeTables p).Gives d w e) : d.Reached p d.tables.length e := by
  refine (finalizeTables_eq.mp h).forEach_range (fun n s => d.Reached p n s) (fun pos hpos s t hs hst => ?_) (.zero d)
  exact (hs.step (List.getElem?_eq_getElem hpos) hst).1

/-- A run over the tables succeeds when each table can be finalized by itself and its keys find their
    columns. -/
theorem finalizeTables_iff : (∃ e, (finalizeTables p).Gives d () e) ↔
    ∀ (i : Nat) t, d.tables[i]? = some t → ∃ u, d.Alone p t u ∧ ∀ k ∈ u.foreignKeys, d.Finds p i u k := by
  simp only [finalizeTables_eq]
  constructor
  · rintro ⟨e, h⟩
    -- What a step needs is kept for all positions that the run has passed.
    have hall := h.forEach_range
      (fun n s => d.Reached p n s ∧
        ∀ i < n, ∀ t, d.tables[i]? = some t → ∃ u, d.Alone p t u ∧ ∀ k ∈ u.foreignKeys, d.Finds p i u k)
      (fun pos hpos s t hs hst => by
        obtain ⟨hnext, hu⟩ := hs.1.step (List.getElem?_eq_getElem hpos) hst
        refine ⟨hnext, fun i hi t' ht' => ?_⟩
        rcases Nat.lt_succ_iff_lt_or_eq.mp hi with hi | rfl
        · exact hs.2 i hi t' ht'
        · rw [List.getElem?_eq_getElem hpos] at ht'
          cases ht'
          exact hu)
      ⟨.zero d, fun i hi => absurd hi (Nat.not_lt_zero i)⟩
    exact fun i t ht => hall.2 i (List.getElem?_eq_some_iff.mp ht).1 t ht
  · intro h
    obtain ⟨e, he, -⟩ := Change.exists_forEach_range (f := finalizeTable p) (s := d) (n := d.tables.length)
      (fun n s => d.Reached p n s)
      (fun pos hpos s hs => by
        have ht := List.getElem?_eq_getElem hpos
        obtain ⟨u, hu, hfinds⟩ := h pos _ ht
        obtain ⟨v, hv, hvt⟩ := hs.rest pos (Nat.le_refl pos) _ ht
        obtain ⟨u', hu', hbu⟩ := hu.of_bare hvt
        obtain ⟨e, he⟩ := exists_finalizeTable_of_alone hs.grows hv hu' fun k hk => by
          have hk' : k ∈ u.foreignKeys := Table.foreignKeys_of_bare hbu ▸ hk
          refine ((hs.resolved_iff ht hu).mpr (hfinds k hk')).grows (.of_bare ?_)
          rw [bare_set, bare_set, hbu]
        exact ⟨e, he, (hs.step ht he).1⟩)
      (.zero d)
    exact ⟨e, he⟩

end Schemata.Database
