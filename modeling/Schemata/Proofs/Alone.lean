import Schemata.Proofs.Blind
import Schemata.Proofs.Stable

/-!
# What finalization makes of a table by itself

Of the other tables, the finalization of a table reads the primary keys of its targets, which do not
change, and the columns that its keys name there. So what becomes of a table but for its back edges
(`Alone`) follows from the database as declared. Only whether the columns on the other side exist
depends on the tables that come before it.
-/

namespace Schemata

namespace Table
variable {t u : Table}

theorem bare_primaryKey (t : Table) : t.bare.primaryKey = t.primaryKey.map (·.clearReferrers) := by
  simp [primaryKey, List.filter_map, Column.clearReferrers, Function.comp_def]

theorem Grows.primaryKey (h : t.Grows u) :
    u.primaryKey.map (·.clearReferrers) = t.primaryKey.map (·.clearReferrers) := by
  rw [← bare_primaryKey, ← bare_primaryKey]
  exact Extends.primaryKey h

theorem hasPrimaryKey_eq (t : Table) : t.hasPrimaryKey = !t.primaryKey.isEmpty := by
  rw [Bool.eq_iff_iff]
  simp [hasPrimaryKey, primaryKey]

theorem Grows.hasPrimaryKey (h : t.Grows u) : u.hasPrimaryKey = t.hasPrimaryKey := by
  rw [hasPrimaryKey_eq, hasPrimaryKey_eq, ← List.isEmpty_map, h.primaryKey, List.isEmpty_map]

/-- A key gets the same columns and pairs for columns that differ in their back edges. -/
theorem completeKey_congr {key : String} {pk pk' : List Column}
    (h : pk'.map (·.clearReferrers) = pk.map (·.clearReferrers)) : completeKey key pk' = completeKey key pk := by
  have hclear : ∀ cs : List Column, completeKey key (cs.map (·.clearReferrers)) = completeKey key cs := by
    intro cs
    have hcols : Change.forEach (addImplicitColumn key) (cs.map (·.clearReferrers)) =
        Change.forEach (addImplicitColumn key) cs := by
      induction cs with
      | nil => rfl
      | cons c cs ih =>
        rw [List.map_cons, Change.forEach, ih]
        rfl
    have hrefs : implicitReferences key (cs.map (·.clearReferrers)) = implicitReferences key cs := by
      rw [implicitReferences, List.map_map]
      rfl
    rw [completeKey, hcols, hrefs, completeKey]
  rw [← hclear pk', h, hclear pk]

theorem rest_addHeavyIndices (h : addHeavyIndices.Gives t () u) : u = { t with indices := u.indices } := by
  simp only [addHeavyIndices, Change.gives_bind, Change.gives_get] at h
  obtain ⟨_, _, ⟨rfl, rfl⟩, h⟩ := h
  split at h
  · exact (gives_addMissingIndices Index.ofNames (fun _ _ _ => gives_addHeavyIndex.mp) h).2.1
  · rw [(Change.gives_pure.mp h).2]

theorem rest_dropUnusedIdMethod (h : dropUnusedIdMethod.Gives t () u) : u = { t with settings := u.settings } := by
  simp only [dropUnusedIdMethod, Change.gives_bind, Change.gives_get] at h
  obtain ⟨_, _, ⟨rfl, rfl⟩, h⟩ := h
  split at h
  · simp only [Change.gives_bind, Change.gives_report, Change.gives_modify] at h
    obtain ⟨_, _, rfl, rfl⟩ := h
    rfl
  · rw [(Change.gives_pure.mp h).2]

theorem foreignKeys_addHeavyIndices (h : addHeavyIndices.Gives t () u) : u.foreignKeys = t.foreignKeys := by
  rw [rest_addHeavyIndices h]

theorem foreignKeys_dropUnusedIdMethod (h : dropUnusedIdMethod.Gives t () u) : u.foreignKeys = t.foreignKeys := by
  rw [rest_dropUnusedIdMethod h]

end Table

namespace Database
variable {d s e : Database} {p : Platform} {pos : Nat} {t u v : Table} {k : ForeignKey} {ks : List ForeignKey} {w : Unit}

/-- The table that a key means. -/
def target? (d : Database) (k : ForeignKey) : Option Table :=
  (d.resolve? k).bind fun pos => d.tables[pos]?

theorem target?_eq_some : d.target? k = some t ↔ ∃ pos, d.resolve? k = some pos ∧ d.tables[pos]? = some t :=
  Option.bind_eq_some_iff

/-- What keys mean depends on the names of the tables alone. -/
theorem Grows.target? (h : d.Grows s) {foreign : Table} :
    d.target? k = some foreign → ∃ foreign', s.target? k = some foreign' ∧ foreign.Grows foreign' := by
  intro hk
  obtain ⟨pos, hres, hforeign⟩ := target?_eq_some.mp hk
  obtain ⟨foreign', hforeign', hg⟩ := getElem?_of_forall₂ h.tables hforeign
  exact ⟨foreign', target?_eq_some.mpr ⟨pos, (h.resolve? k).trans hres, hforeign'⟩, hg⟩

/-! ### Completing keys -/

/-- The keys `ks` in turn get columns and pairs for the tables of `d` that they mean, which takes the
    table `t` to `u`. -/
inductive CompletesKeys (d : Database) : List ForeignKey → Table → Table → Prop
  | nil (t : Table) : CompletesKeys d [] t t
  | cons {k : ForeignKey} {ks : List ForeignKey} {t u v foreign : Table} (target : d.target? k = some foreign)
      (hasKey : foreign.hasPrimaryKey = true) (first : (Table.completeKey k.name foreign.primaryKey).Gives t () u)
      (rest : CompletesKeys d ks u v) : CompletesKeys d (k :: ks) t v

namespace CompletesKeys

theorem grows (h : d.CompletesKeys ks t u) : t.Extends u := by
  induction h with
  | nil t => exact .refl t
  | cons _ _ first _ ih => exact (Table.gives_completeKey first).1.trans ih

theorem of_bare (h : d.CompletesKeys ks t u) {t' : Table} (ht : t'.bare = t.bare) :
    ∃ u', d.CompletesKeys ks t' u' ∧ u'.bare = u.bare := by
  induction h generalizing t' with
  | nil t => exact ⟨t', .nil t', ht⟩
  | cons target hasKey first _ ih =>
    obtain ⟨u', hu', hbare⟩ := (Table.blind_completeKey _ _).gives first ht
    obtain ⟨v', hv', hbare'⟩ := ih hbare
    exact ⟨v', .cons target hasKey hu' hv', hbare'⟩

theorem unique (h : d.CompletesKeys ks t u) (h' : d.CompletesKeys ks t v) : v = u := by
  induction h with
  | nil t =>
    cases h'
    rfl
  | cons target _ first _ ih =>
    cases h' with
    | cons target' _ first' rest' =>
      rw [target] at target'
      cases target'
      rw [(first.unique first').2] at rest'
      exact ih rest'

end CompletesKeys

/-- The key as it is once it is completed for the tables of `d`. -/
def completedKey (d : Database) (k : ForeignKey) : ForeignKey :=
  if k.isImplicit then
    { k with references := Table.implicitReferences k.name (((d.target? k).map (·.primaryKey)).getD []) }
  else k

theorem completedKey_of_explicit (h : k.isImplicit = false) : d.completedKey k = k := by
  rw [completedKey, if_neg (by simp [h])]

theorem target?_completedKey (d e : Database) (k : ForeignKey) : e.target? (d.completedKey k) = e.target? k := by
  unfold completedKey
  split <;> rfl

/-- The columns that an implicit key gets refer to declared columns. -/
theorem hasColumn_of_completedKey (h : k.isImplicit = true) {name : String} (hn : name ∈ (d.completedKey k).foreignColumns) :
    ∃ foreign, d.target? k = some foreign ∧ foreign.hasColumn name = true := by
  rw [completedKey, if_pos h] at hn
  cases hk : d.target? k with
  | none => simp [hk, ForeignKey.foreignColumns, Table.implicitReferences] at hn
  | some foreign =>
    obtain ⟨c, hc, rfl⟩ : ∃ c ∈ foreign.primaryKey, c.name = name := by
      simpa [hk, ForeignKey.foreignColumns, Table.implicitReferences] using hn
    exact ⟨foreign, rfl, List.any_eq_true.mpr ⟨c, List.mem_of_mem_filter hc, beq_self_eq_true _⟩⟩

theorem CompletesKeys.foreignKeys (h : d.CompletesKeys ks t u) (hd : (t.foreignKeys.map (·.name)).Nodup)
    (hks : (ks.map (·.name)).Nodup) (hsub : ∀ k ∈ ks, k ∈ t.foreignKeys ∧ k.isImplicit = true) :
    u.foreignKeys = t.foreignKeys.map fun k => if k ∈ ks then d.completedKey k else k := by
  induction h with
  | nil t => simp
  | @cons k ks t v u foreign target hasKey first rest ih =>
    obtain ⟨hext, hkeys⟩ := Table.gives_completeKey first
    obtain ⟨hk, himp⟩ := hsub k List.mem_cons_self
    obtain ⟨hfresh, hks⟩ := List.nodup_cons.mp hks
    have hcompleted : d.completedKey k =
        { k with references := k.references ++ Table.implicitReferences k.name foreign.primaryKey } := by
      have hnil : k.references = [] := by simpa [ForeignKey.isImplicit] using himp
      rw [completedKey, if_pos himp, target, hnil]
      rfl
    have hname : (d.completedKey k).name = k.name := by rw [hcompleted]
    -- Names tell keys apart, so the step completes `k` and no other key.
    have hstep : v.foreignKeys = t.foreignKeys.map fun l => if l = k then d.completedKey l else l := by
      rw [hkeys, modifyFirst_eq_map hd]
      refine List.map_congr_left fun l hl => ?_
      by_cases hlk : l = k
      · subst hlk
        rw [if_pos rfl, if_pos rfl, hcompleted]
      · rw [if_neg fun hln => hlk (List.inj_on_of_nodup_map hd hl hk hln), if_neg hlk]
    have hrest : ∀ l ∈ ks, l ∈ v.foreignKeys ∧ l.isImplicit = true := fun l hl => by
      obtain ⟨hlt, hli⟩ := hsub l (List.mem_cons_of_mem _ hl)
      have hne : l ≠ k := fun hlk => hfresh (hlk ▸ List.mem_map.mpr ⟨l, hl, rfl⟩)
      refine ⟨?_, hli⟩
      rw [hstep]
      exact List.mem_map.mpr ⟨l, hlt, by rw [if_neg hne]⟩
    rw [ih (hext.keyNames ▸ hd) hks hrest, hstep, List.map_map]
    refine List.map_congr_left fun l _ => ?_
    rw [Function.comp_apply]
    by_cases hlk : l = k
    · subst hlk
      have hnot : d.completedKey l ∉ ks := fun hmem => by
        have hmem' := List.mem_map.mpr ⟨_, hmem, hname⟩
        exact hfresh hmem'
      rw [if_pos rfl, if_neg hnot, if_pos List.mem_cons_self]
    · rw [if_neg hlk]
      simp [hlk]

/-- All implicit keys of a table are completed, and its other keys stay. -/
theorem CompletesKeys.all (h : d.CompletesKeys (t.foreignKeys.filter (·.isImplicit)) t u)
    (hd : (t.foreignKeys.map (·.name)).Nodup) : u.foreignKeys = t.foreignKeys.map d.completedKey := by
  have hnodup : ((t.foreignKeys.filter (·.isImplicit)).map (·.name)).Nodup :=
    hd.sublist (List.filter_sublist.map _)
  rw [h.foreignKeys hd hnodup fun k hk => List.mem_filter.mp hk]
  refine List.map_congr_left fun k hk => ?_
  by_cases himp : k.isImplicit = true
  · rw [if_pos (List.mem_filter.mpr ⟨hk, himp⟩)]
  · rw [if_neg fun hmem => himp (List.mem_filter.mp hmem).2, completedKey_of_explicit (by simpa using himp)]

/-- A step of a run reads the primary keys that were declared. -/
theorem gives_completeKey_iff (hg : d.Grows s) : (completeKey pos k).Gives s w e ↔
    ∃ foreign, d.target? k = some foreign ∧ foreign.hasPrimaryKey = true ∧
      (editAt pos (Table.completeKey k.name foreign.primaryKey)).Gives s w e := by
  constructor
  · intro h
    obtain ⟨target, foreign', hres, hforeign', hpk, hedit⟩ := gives_completeKey h
    obtain ⟨foreign, hforeign, hgf⟩ := forall₂_getElem? hg.tables hforeign'
    rw [Table.completeKey_congr hgf.primaryKey] at hedit
    exact ⟨foreign, target?_eq_some.mpr ⟨target, (hg.resolve? k).symm.trans hres, hforeign⟩, hgf.hasPrimaryKey ▸ hpk, hedit⟩
  · rintro ⟨foreign, hk, hpk, hedit⟩
    obtain ⟨foreign', hk', hgf⟩ := hg.target? hk
    obtain ⟨target, hres, hforeign'⟩ := target?_eq_some.mp hk'
    rw [← Table.completeKey_congr hgf.primaryKey] at hedit
    simp only [completeKey, Change.gives_bind, Change.gives_get, Change.gives_ofExcept, resolve_eq_ok]
    refine ⟨s, s, ⟨rfl, rfl⟩, target, s, ⟨hres, rfl⟩, ?_⟩
    rw [hforeign']
    dsimp only
    rwa [hgf.hasPrimaryKey, if_pos hpk]

theorem gives_completeKeyList_iff (hg : d.Grows s) (ht : s.tables[pos]? = some t) :
    (Change.forEach (completeKey pos) ks).Gives s w e ↔
      ∃ u, d.CompletesKeys ks t u ∧ e = { s with tables := s.tables.set pos u } := by
  have hlt := (List.getElem?_eq_some_iff.mp ht).1
  induction ks generalizing s t with
  | nil =>
    have hsame : { s with tables := s.tables.set pos t } = s := by
      rw [← List.getElem?_eq_some_iff.mp ht |>.2, List.set_getElem_self]
    rw [Change.gives_forEach_nil]
    constructor
    · rintro rfl
      exact ⟨t, .nil t, hsame.symm⟩
    · rintro ⟨u, hu, rfl⟩
      cases hu
      exact hsame
  | cons k ks ih =>
    -- The first key takes the table to `v`, and the rest is a run from there.
    have htail : ∀ v, t.Extends v → ((Change.forEach (completeKey pos) ks).Gives
        { s with tables := s.tables.set pos v } w e ↔
          ∃ u, d.CompletesKeys ks v u ∧ e = { s with tables := s.tables.set pos u }) := fun v hv => by
      obtain ⟨hv', hgv, -⟩ := extend_table ht hv rfl
      have hrun := ih (hg.trans hgv.grows) hv' (List.getElem?_eq_some_iff.mp hv').1
      simp only [List.set_set] at hrun
      exact hrun
    rw [Change.gives_forEach_cons]
    constructor
    · rintro ⟨f, hk, hks⟩
      obtain ⟨foreign, htarget, hpk, hedit⟩ := (gives_completeKey_iff hg).mp hk
      obtain ⟨v, hv, rfl⟩ := (gives_editAt_of_getElem? ht).mp hedit
      obtain ⟨u, hu, rfl⟩ := (htail v (Table.gives_completeKey hv).1).mp hks
      exact ⟨u, .cons htarget hpk hv hu, rfl⟩
    · rintro ⟨u, hu, rfl⟩
      cases hu with
      | @cons _ _ _ v _ foreign htarget hpk hv hu =>
        refine ⟨_, (gives_completeKey_iff hg).mpr ⟨foreign, htarget, hpk, (gives_editAt_of_getElem? ht).mpr ⟨v, hv, rfl⟩⟩, ?_⟩
        exact (htail v (Table.gives_completeKey hv).1).mpr ⟨u, hu, rfl⟩

/-! ### A table by itself -/

theorem extraIndices_congr (hd : e.vendor = d.vendor) (hu : u.bare = t.bare) :
    p.extraIndices e u = p.extraIndices d t := by
  have hvendor := Table.vendor_of_bare hu
  have hindex : Platform.keyIndex? u = Platform.keyIndex? t := by
    funext k
    rw [Platform.keyIndex?, ← Table.bare_coversColumns u, hu, Table.bare_coversColumns, (Table.Grows.of_bare hu).name,
      Platform.keyIndex?]
  rw [Platform.extraIndices, Table.needsKeyIndex_congr hd hvendor, Table.foreignKeys_of_bare hu, hindex,
    Platform.extraIndices]

/-- Finalization takes the table `t` to `u`, apart from back edges: heavy indices, the id method, the
    columns and pairs of implicit keys and the indices of the platform. -/
def Alone (p : Platform) (d : Database) (t u : Table) : Prop :=
  ∃ t₁ t₂ v, Table.addHeavyIndices.Gives t () t₁ ∧ Table.dropUnusedIdMethod.Gives t₁ () t₂ ∧
    d.CompletesKeys (t₂.foreignKeys.filter (·.isImplicit)) t₂ v ∧
    (Change.forEach Table.addKeyIndex (p.extraIndices d v)).Gives v () u

namespace Alone

theorem of_bare (h : d.Alone p t u) {t' : Table} (ht : t'.bare = t.bare) :
    ∃ u', d.Alone p t' u' ∧ u'.bare = u.bare := by
  obtain ⟨t₁, t₂, v, h₁, h₂, hv, hu⟩ := h
  obtain ⟨t₁', h₁', hb₁⟩ := Table.blind_addHeavyIndices.gives h₁ ht
  obtain ⟨t₂', h₂', hb₂⟩ := Table.blind_dropUnusedIdMethod.gives h₂ hb₁
  obtain ⟨v', hv', hbv⟩ := hv.of_bare hb₂
  obtain ⟨u', hu', hbu⟩ := (Table.blind_addKeyIndices _).gives hu hbv
  refine ⟨u', ⟨t₁', t₂', v', h₁', h₂', Table.foreignKeys_of_bare hb₂ ▸ hv', ?_⟩, hbu⟩
  rwa [extraIndices_congr rfl hbv]

theorem unique (h : d.Alone p t u) (h' : d.Alone p t v) : v = u := by
  obtain ⟨t₁, t₂, t₃, h₁, h₂, h₃, hu⟩ := h
  obtain ⟨t₁', t₂', t₃', h₁', h₂', h₃', hv⟩ := h'
  obtain rfl := (h₁.unique h₁').2
  obtain rfl := (h₂.unique h₂').2
  obtain rfl := h₃.unique h₃'
  exact (hu.unique hv).2

theorem grows (h : d.Alone p t u) : t.Extends u := by
  obtain ⟨t₁, t₂, v, h₁, h₂, h₃, hu⟩ := h
  have hidx := Table.gives_addMissingIndices id (fun _ _ _ => Table.gives_addKeyIndex.mp) hu
  exact (Table.gives_addHeavyIndices h₁).1.trans <| (Table.gives_dropUnusedIdMethod h₂).1.trans <| h₃.grows.trans hidx.1

theorem foreignKeys (h : d.Alone p t u) (hd : (t.foreignKeys.map (·.name)).Nodup) :
    u.foreignKeys = t.foreignKeys.map d.completedKey := by
  obtain ⟨t₁, t₂, v, h₁, h₂, h₃, hu⟩ := h
  have hk₂ : t₂.foreignKeys = t.foreignKeys := by
    rw [Table.foreignKeys_dropUnusedIdMethod h₂, Table.foreignKeys_addHeavyIndices h₁]
  rw [(Table.gives_addMissingIndices id (fun _ _ _ => Table.gives_addKeyIndex.mp) hu).2.1, h₃.all (hk₂ ▸ hd), hk₂]

end Alone

end Database

end Schemata
