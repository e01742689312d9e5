import Schemata.Proofs.BackEdges

/-!
# Finalizing the table at a position

When each part of `finalizeTable` succeeds and what it does to the database: implicit keys get their
pairs, keys are resolved and linked, and the platform's indices are added.
-/

namespace Schemata.Database
variable {d e : Database} {pos : Nat} {t : Table} {w : Unit}

/-! ### Implicit keys -/

theorem gives_completeKey {k : ForeignKey} (h : (completeKey pos k).Gives d w e) :
    ∃ target foreign, d.resolve? k = some target ∧ d.tables[target]? = some foreign ∧
      foreign.hasPrimaryKey = true ∧ (editAt pos (Table.completeKey k.name foreign.primaryKey)).Gives d w e := by
  simp only [completeKey, Change.gives_bind, Change.gives_get, Change.gives_ofExcept, resolve_eq_ok] at h
  obtain ⟨_, _, ⟨rfl, rfl⟩, target, _, ⟨hres, rfl⟩, h⟩ := h
  have hlt := resolve?_lt hres
  rw [List.getElem?_eq_getElem hlt] at h
  dsimp only at h
  split at h
  · rename_i hpk
    exact ⟨target, _, hres, List.getElem?_eq_getElem hlt, hpk, h⟩
  · exact absurd h Change.not_gives_fail

theorem implicitReferences_ne_nil {key : String} {foreign : Table} (h : foreign.hasPrimaryKey = true) :
    Table.implicitReferences key foreign.primaryKey ≠ [] := by
  obtain ⟨c, hc, hpk⟩ := List.any_eq_true.mp h
  exact List.map_eq_nil_iff.not.mpr (List.ne_nil_of_mem (List.mem_filter.mpr ⟨hc, hpk⟩))

/-- Completing keys leaves the keys that are still implicit as they were, and they have other names. -/
theorem gives_completeKeyList (ht : d.tables[pos]? = some t) (hd : (t.foreignKeys.map (·.name)).Nodup)
    {ks : List ForeignKey} (h : (Change.forEach (completeKey pos) ks).Gives d w e) :
    ∃ u, t.Extends u ∧ e = { d with tables := d.tables.set pos u } ∧
      ∀ k ∈ u.foreignKeys, k.isImplicit = true → k ∈ t.foreignKeys ∧ k.name ∉ ks.map (·.name) := by
  induction ks generalizing d t with
  | nil =>
    obtain rfl := Change.gives_forEach_nil.mp h
    refine ⟨t, .refl t, ?_, fun k hk _ => ⟨hk, by simp⟩⟩
    rw [← List.getElem?_eq_some_iff.mp ht |>.2, List.set_getElem_self]
  | cons k ks ih =>
    obtain ⟨f, hk, hks⟩ := Change.gives_forEach_cons.mp h
    obtain ⟨target, foreign, -, -, hpk, hedit⟩ := gives_completeKey hk
    obtain ⟨v, hv, rfl⟩ := (gives_editAt_of_getElem? ht).mp hedit
    obtain ⟨hext, hkeys⟩ := Table.gives_completeKey hv
    have hlt := (List.getElem?_eq_some_iff.mp ht).1
    have hdv : (v.foreignKeys.map (·.name)).Nodup := hext.keyNames ▸ hd
    obtain ⟨u, hext', rfl, himp⟩ := ih (List.getElem?_set_self hlt) hdv hks
    refine ⟨u, hext.trans hext', by rw [List.set_set], fun l hl hil => ?_⟩
    obtain ⟨hlv, hnew⟩ := himp l hl hil
    rw [hkeys, modifyFirst_eq_map hd] at hlv
    obtain ⟨l', hl', rfl⟩ := List.mem_map.mp hlv
    by_cases hname : l'.name = k.name
    · -- A key of this name has got pairs.
      rw [if_pos hname] at hil
      simp [ForeignKey.isImplicit, implicitReferences_ne_nil hpk] at hil
    · rw [if_neg hname] at hnew ⊢
      exact ⟨hl', by simpa [hname] using hnew⟩

theorem completeKeys_eq (ht : d.tables[pos]? = some t) :
    (completeKeys pos).Gives d w e ↔
      (Change.forEach (completeKey pos) (t.foreignKeys.filter (·.isImplicit))).Gives d w e := by
  simp only [completeKeys, Change.gives_bind, Change.gives_get]
  constructor
  · rintro ⟨_, _, ⟨rfl, rfl⟩, h⟩
    rwa [ht] at h
  · intro h
    exact ⟨d, d, ⟨rfl, rfl⟩, by rwa [ht]⟩

/-- Afterwards no key of the table is implicit. -/
theorem gives_completeKeys (ht : d.tables[pos]? = some t) (hd : (t.foreignKeys.map (·.name)).Nodup)
    (h : (completeKeys pos).Gives d w e) :
    ∃ u, t.Extends u ∧ e = { d with tables := d.tables.set pos u } ∧ ∀ k ∈ u.foreignKeys, k.isImplicit = false := by
  obtain ⟨u, hext, he, himp⟩ := gives_completeKeyList ht hd ((completeKeys_eq ht).mp h)
  refine ⟨u, hext, he, fun k hk => ?_⟩
  by_contra hik
  have hik' : k.isImplicit = true := by simpa using hik
  obtain ⟨hkt, hnot⟩ := himp k hk hik'
  exact hnot (List.mem_map.mpr ⟨k, List.mem_filter.mpr ⟨hkt, hik'⟩, rfl⟩)

theorem completeKeys_self (ht : d.tables[pos]? = some t) (h : ∀ k ∈ t.foreignKeys, k.isImplicit = false) :
    (completeKeys pos).Gives d w d := by
  rw [completeKeys_eq ht, List.filter_eq_nil_iff.mpr fun k hk => by simp [h k hk]]
  exact Change.gives_forEach_nil.mpr rfl

/-! ### Linking -/

/-- Key `k` of the table at `pos` points at a table of the database, and all its columns exist. -/
def Resolved (d : Database) (pos : Nat) (k : ForeignKey) : Prop :=
  ∃ own target foreign, d.tables[pos]? = some own ∧ d.resolve? k = some target ∧
    d.tables[target]? = some foreign ∧ (∀ name ∈ k.localColumns, own.hasColumn name = true) ∧
    ∀ name ∈ k.foreignColumns, foreign.hasColumn name = true

theorem Resolved.grows {k : ForeignKey} (h : d.Resolved pos k) (hg : d.Grows e) : e.Resolved pos k := by
  obtain ⟨own, target, foreign, hown, hres, hforeign, hloc, hfor⟩ := h
  obtain ⟨own', hown', hgo⟩ := getElem?_of_forall₂ hg.tables hown
  obtain ⟨foreign', hforeign', hgf⟩ := getElem?_of_forall₂ hg.tables hforeign
  exact ⟨own', target, foreign', hown', (hg.resolve? k).trans hres, hforeign',
    fun name hn => hgo.hasColumn (hloc name hn), fun name hn => hgf.hasColumn (hfor name hn)⟩

theorem find?_not_eq_none {names : List String} :
    names.find? (!t.hasColumn ·) = none ↔ ∀ name ∈ names, t.hasColumn name = true := by
  simp [List.find?_eq_none]

theorem modifyTableAt_link {target : Nat} {foreign : Table} (h : d.tables[target]? = some foreign) (k : ForeignKey) :
    d.modifyTableAt target (·.link k) = { d with tables := d.tables.set target (foreign.link k) } := by
  rw [modifyTableAt, set_eq_modify h]

theorem gives_linkKey (ht : d.tables[pos]? = some t) {k : ForeignKey} :
    (linkKey pos k).Gives d w e ↔ ∃ target foreign, d.resolve? k = some target ∧ d.tables[target]? = some foreign ∧
      (∀ name ∈ k.localColumns, t.hasColumn name = true) ∧ (∀ name ∈ k.foreignColumns, foreign.hasColumn name = true) ∧
      e = { d with tables := d.tables.set target (foreign.link k) } := by
  simp only [linkKey, Change.gives_bind, Change.gives_get, Change.gives_ofExcept, resolve_eq_ok]
  constructor
  · rintro ⟨_, _, ⟨rfl, rfl⟩, target, _, ⟨hres, rfl⟩, h⟩
    have hforeign := List.getElem?_eq_getElem (resolve?_lt hres)
    rw [ht, hforeign] at h
    dsimp only at h
    split at h
    · exact absurd h Change.not_gives_fail
    · rename_i hloc
      split at h
      · exact absurd h Change.not_gives_fail
      · rename_i hfor
        simp only [Change.gives_bind, Change.gives_modify, Change.gives_report] at h
        obtain ⟨_, _, rfl, rfl⟩ := h
        exact ⟨target, _, hres, hforeign, find?_not_eq_none.mp hloc, find?_not_eq_none.mp hfor,
          modifyTableAt_link hforeign k⟩
  · rintro ⟨target, foreign, hres, hforeign, hloc, hfor, rfl⟩
    refine ⟨d, d, ⟨rfl, rfl⟩, target, d, ⟨hres, rfl⟩, ?_⟩
    rw [ht, hforeign]
    dsimp only
    rw [find?_not_eq_none.mpr hloc]
    dsimp only
    rw [find?_not_eq_none.mpr hfor]
    simp [modifyTableAt_link hforeign k]

/-- Linking keys changes back edges only, and afterwards the keys are resolved and linked. -/
theorem gives_linkKeyList (ht : d.tables[pos]? = some t) {ks : List ForeignKey}
    (h : (Change.forEach (linkKey pos) ks).Gives d w e) :
    (∀ i, GrowsAt i d e) ∧ (∀ k ∈ ks, e.Resolved pos k) ∧
      (d.DistinctNames → ∀ done, d.Linked done → e.Linked (done ++ ks)) := by
  induction ks generalizing d t with
  | nil =>
    obtain rfl := Change.gives_forEach_nil.mp h
    exact ⟨fun i => .refl i _, by simp, fun _ done hl => by simpa using hl⟩
  | cons k ks ih =>
    obtain ⟨f, hk, hks⟩ := Change.gives_forEach_cons.mp h
    obtain ⟨target, foreign, hres, hforeign, hloc, hfor, rfl⟩ := (gives_linkKey ht).mp hk
    have hg := GrowsAt.of_edges hforeign (Table.clearReferrers_link foreign k)
    obtain ⟨t', ht', -⟩ := getElem?_of_forall₂ (hg 0).grows.tables ht
    obtain ⟨hg', hall, hlink⟩ := ih ht' hks
    refine ⟨fun i => (hg i).trans (hg' i), fun l hl => ?_, fun hd done hl => ?_⟩
    · rcases List.mem_cons.mp hl with rfl | hl
      · have hk' : d.Resolved pos l := ⟨t, target, foreign, ht, hres, hforeign, hloc, hfor⟩
        exact hk'.grows ((hg 0).trans (hg' 0)).grows
      · exact hall l hl
    · have hcols := (hd.inTables foreign (List.mem_of_getElem? hforeign)).columns
      have := hlink ((hg 0).grows.distinctNames hd) (done ++ [k]) (hl.link hres hforeign hfor hcols)
      simpa using this

/-- Resolved keys can be linked. -/
theorem exists_linkKeyList {ks : List ForeignKey} (h : ∀ k ∈ ks, d.Resolved pos k) :
    ∃ e, (Change.forEach (linkKey pos) ks).Gives d () e := by
  induction ks generalizing d with
  | nil => exact ⟨d, Change.gives_forEach_nil.mpr rfl⟩
  | cons k ks ih =>
    obtain ⟨own, target, foreign, hown, hres, hforeign, hloc, hfor⟩ := h k List.mem_cons_self
    have hk := (gives_linkKey (w := ()) hown).mpr ⟨target, foreign, hres, hforeign, hloc, hfor, rfl⟩
    have hg := (GrowsAt.of_edges hforeign (Table.clearReferrers_link foreign k) 0).grows
    obtain ⟨e, he⟩ := ih fun l hl => (h l (List.mem_cons_of_mem _ hl)).grows hg
    exact ⟨e, Change.gives_forEach_cons.mpr ⟨_, hk, he⟩⟩

theorem linkKeys_eq (ht : d.tables[pos]? = some t) :
    (linkKeys pos).Gives d w e ↔ ∃ f, (Change.forEach (linkKey pos) t.foreignKeys).Gives d () f ∧
      e = f.modifyTableAt pos fun t => { t with containsForeignKey := t.refersByKey } := by
  simp only [linkKeys, Change.gives_bind, Change.gives_get]
  constructor
  · rintro ⟨_, _, ⟨rfl, rfl⟩, h⟩
    rw [ht] at h
    obtain ⟨_, f, hf, he⟩ := Change.gives_bind.mp h
    exact ⟨f, hf, Change.gives_modify.mp he⟩
  · rintro ⟨f, hf, rfl⟩
    refine ⟨d, d, ⟨rfl, rfl⟩, ?_⟩
    rw [ht]
    exact Change.gives_bind.mpr ⟨(), f, hf, Change.gives_modify.mpr rfl⟩

/-- A table that is extended in its place. -/
theorem extend_table (ht : d.tables[pos]? = some t) {u : Table} (hu : t.Extends u)
    (he : e = { d with tables := d.tables.set pos u }) :
    e.tables[pos]? = some u ∧ GrowsAt pos d e ∧ (d.DistinctNames → ∀ ks, d.Linked ks → e.Linked ks) := by
  subst he
  refine ⟨List.getElem?_set_self (List.getElem?_eq_some_iff.mp ht).1, .of_set ht (.of_extends hu), fun hd ks hl => ?_⟩
  exact hl.extend ht hu (hd.inTables t (List.mem_of_getElem? ht)).columns

theorem gives_linkKeys (ht : d.tables[pos]? = some t) (h : (linkKeys pos).Gives d w e) :
    ∃ u, e.tables[pos]? = some u ∧ u.bare = t.bare ∧ u.containsForeignKey = u.refersByKey ∧ GrowsAt pos d e ∧
      (∀ k ∈ t.foreignKeys, e.Resolved pos k) ∧
      (d.DistinctNames → ∀ ks, d.Linked ks → e.Linked (ks ++ t.foreignKeys)) := by
  obtain ⟨f, hf, rfl⟩ := (linkKeys_eq ht).mp h
  obtain ⟨hg, hres, hlink⟩ := gives_linkKeyList ht hf
  obtain ⟨v, hv, -⟩ := getElem?_of_forall₂ (hg 0).grows.tables ht
  have hvt : v.clearReferrers = t.clearReferrers := by
    obtain ⟨t', ht', -, heq⟩ := (hg (pos + 1)).other (Nat.ne_of_lt (Nat.lt_succ_self pos)) hv
    rw [ht] at ht'
    cases ht'
    exact heq
  obtain ⟨hu, hgu, hlinku⟩ := extend_table hv (.refersByKey (b := v.refersByKey))
    (e := f.modifyTableAt pos fun t => { t with containsForeignKey := t.refersByKey })
    (by rw [modifyTableAt, set_eq_modify hv])
  refine ⟨_, hu, ?_, rfl, (hg pos).trans hgu, fun k hk => (hres k hk).grows hgu.grows, fun hd ks hl => ?_⟩
  · show v.bare = t.bare
    rw [Table.bare, hvt, ← Table.bare]
  · exact hlinku ((hg 0).grows.distinctNames hd) _ (hlink hd ks hl)

/-! ### Indices for keys -/

theorem addKeyIndices_eq {p : Platform} (ht : d.tables[pos]? = some t) :
    (addKeyIndices p pos).Gives d w e ↔ ∃ u,
      (Change.forEach Table.addKeyIndex (p.extraIndices d t)).Gives t () u ∧
        e = { d with tables := d.tables.set pos u } := by
  rw [← gives_editAt_of_getElem? (w := w) ht]
  simp only [addKeyIndices, Change.gives_bind, Change.gives_get]
  constructor
  · rintro ⟨_, _, ⟨rfl, rfl⟩, h⟩
    rwa [ht] at h
  · intro h
    exact ⟨d, d, ⟨rfl, rfl⟩, by rwa [ht]⟩

/-- Afterwards the local columns of each key are covered, where the platform wants that. -/
theorem gives_addKeyIndices {p : Platform} (ht : d.tables[pos]? = some t) (h : (addKeyIndices p pos).Gives d w e) :
    ∃ u, t.Extends u ∧ u = { t with indices := u.indices } ∧ e = { d with tables := d.tables.set pos u } ∧
      (p.needsKeyIndex d t = true → ∀ k ∈ t.foreignKeys, k.localColumns ≠ [] → u.coversColumns k.localColumns = true) := by
  obtain ⟨u, hu, rfl⟩ := (addKeyIndices_eq ht).mp h
  obtain ⟨hext, hidx, hall⟩ := Table.gives_addMissingIndices id (fun _ _ _ => Table.gives_addKeyIndex.mp) hu
  refine ⟨u, hext, hidx, rfl, fun hneeds k hk hloc => ?_⟩
  by_cases hcov : t.coversColumns k.localColumns = true
  · exact hext.coversColumns hcov
  · have hwanted : t.indexOver "fi" k.localColumns ∈ p.extraIndices d t := by
      rw [Platform.extraIndices, if_pos hneeds]
      exact List.mem_filterMap.mpr ⟨k, hk, Table.keyIndex?_eq_some.mpr ⟨hloc, by simpa using hcov, rfl⟩⟩
    refine Table.coversColumns_of_hasIndexOver hloc ?_
    simpa using hall _ hwanted

end Schemata.Database
