import Schemata.Proofs.TableStep

/-!
# Complete tables

What finalizing a table sees to within the table (`Table.Complete`), and that the back edges have no
part in it: a table that grows into another one by linking alone stays complete.
-/

namespace Schemata

namespace Table

/-- The table has taken over the settings of its database. -/
structure Inherits (d : Database) (t : Table) : Prop where
  settings : ∀ s, t.settings.orElse s = t.settings
  nameSpace : t.nameSpace.or d.nameSpace = t.nameSpace

/-- What finalization sees to within a table. -/
structure Complete (p : Platform) (d : Database) (t : Table) : Prop where
  heavy : t.isHeavyIndexing = true → ∀ names ∈ properSuffixes t.primaryKeyNames, t.hasIndexOver names = true
  counts : t.idMethod = .native → t.hasAutoIncrement = true
  explicit : ∀ k ∈ t.foreignKeys, k.isImplicit = false
  covered : p.needsKeyIndex d t = true → ∀ k ∈ t.foreignKeys, t.coversColumns k.localColumns = true

section Bare
variable {t u : Table} {p : Platform} {d e : Database}

@[simp] theorem bare_isHeavyIndexing (t : Table) : t.bare.isHeavyIndexing = t.isHeavyIndexing := rfl
@[simp] theorem bare_idMethod (t : Table) : t.bare.idMethod = t.idMethod := rfl
@[simp] theorem bare_hasIndexOver (t : Table) (names : List String) : t.bare.hasIndexOver names = t.hasIndexOver names := rfl
@[simp] theorem bare_coversColumns (t : Table) (names : List String) :
    t.bare.coversColumns names = t.coversColumns names := by
  simp [coversColumns]

theorem needsKeyIndex_congr (hd : e.vendor = d.vendor) (ht : u.vendor = t.vendor) :
    p.needsKeyIndex e u = p.needsKeyIndex d t := by
  cases p with
  | plain kind => rfl
  | mysql tableType => simp only [Platform.needsKeyIndex, storageEngine, hd, ht]

theorem bare_eq_of_clearReferrers (h : u.clearReferrers = t.clearReferrers) : u.bare = t.bare := by
  rw [bare, h, ← bare]

/-- Whether a table is complete does not depend on its back edges. -/
theorem complete_bare : t.bare.Complete p d ↔ t.Complete p d := by
  have hneeds : p.needsKeyIndex d t.bare = p.needsKeyIndex d t := needsKeyIndex_congr rfl rfl
  constructor
  · rintro ⟨h1, h2, h3, h4⟩
    exact ⟨by simpa using h1, by simpa using h2, h3, by simpa [hneeds] using h4⟩
  · rintro ⟨h1, h2, h3, h4⟩
    exact ⟨by simpa using h1, by simpa using h2, h3, by simpa [hneeds] using h4⟩

theorem Complete.of_bare (h : t.Complete p d) (hu : u.bare = t.bare) : u.Complete p d :=
  complete_bare.mp (hu ▸ complete_bare.mpr h)

theorem Complete.of_vendor (h : t.Complete p d) (hv : e.vendor = d.vendor) : t.Complete p e where
  heavy := h.heavy
  counts := h.counts
  explicit := h.explicit
  covered := fun hn => h.covered (needsKeyIndex_congr (t := t) hv rfl ▸ hn)

theorem Grows.isHeavyIndexing (h : t.Grows u) : u.isHeavyIndexing = t.isHeavyIndexing := by
  rcases Extends.settings h with hs | ⟨-, -, hs⟩ <;> rw [bare_settings, bare_settings] at hs <;>
    simp [Table.isHeavyIndexing, hs]

theorem Grows.primaryKeyNames (h : t.Grows u) : u.primaryKeyNames = t.primaryKeyNames := by
  rw [← bare_primaryKeyNames u, ← bare_primaryKeyNames t, Table.primaryKeyNames, Extends.primaryKey h,
    Table.primaryKeyNames]

theorem Grows.hasIndexOver (h : t.Grows u) {names : List String} (hn : t.hasIndexOver names = true) :
    u.hasIndexOver names = true := by
  rw [← bare_hasIndexOver] at hn ⊢
  exact Extends.hasIndexOver h hn

theorem Grows.counts (h : t.Grows u) (ht : t.idMethod = .native → t.hasAutoIncrement = true) (hu : u.idMethod = .native) :
    u.hasAutoIncrement = true := by
  rw [← bare_hasAutoIncrement u, Extends.hasAutoIncrement h, bare_hasAutoIncrement]
  rcases Extends.settings h with hs | ⟨-, -, hs⟩ <;> rw [bare_settings, bare_settings] at hs
  · exact ht (by rwa [Table.idMethod, hs] at hu)
  · simp [Table.idMethod, hs] at hu

theorem Grows.heavy (h : t.Grows u)
    (ht : t.isHeavyIndexing = true → ∀ names ∈ properSuffixes t.primaryKeyNames, t.hasIndexOver names = true) :
    u.isHeavyIndexing = true → ∀ names ∈ properSuffixes u.primaryKeyNames, u.hasIndexOver names = true := by
  rw [h.isHeavyIndexing, h.primaryKeyNames]
  exact fun hheavy names hn => h.hasIndexOver (ht hheavy names hn)

theorem Grows.inherits (h : t.Grows u) (ht : t.Inherits d) : u.Inherits d where
  settings := fun s => by
    rcases Extends.settings h with hs | ⟨-, -, hs⟩
    · rw [bare_settings, bare_settings] at hs
      rw [hs, ht.settings]
    · rw [bare_settings, bare_settings] at hs
      rw [hs, ← ht.settings s]
      rfl
  nameSpace := by
    have hn := congrArg Table.nameSpace h.fixed
    have hn' : u.nameSpace = t.nameSpace := hn
    rw [hn', ht.nameSpace]

end Bare

end Table

namespace Database
variable {d e : Database} {p : Platform} {pos : Nat} {t : Table} {w : Unit}

theorem growsAt_completeKeys (h : (completeKeys pos).Gives d w e) : GrowsAt pos d e := by
  simp only [completeKeys, Change.gives_bind, Change.gives_get] at h
  obtain ⟨_, _, ⟨rfl, rfl⟩, h⟩ := h
  split at h
  · obtain ⟨-, rfl⟩ := Change.gives_pure.mp h
    exact .refl pos _
  · refine h.forEach (GrowsAt.refl pos) GrowsAt.trans fun k _ f g hk => ?_
    obtain ⟨-, foreign, -, -, -, hedit⟩ := gives_completeKey hk
    exact .of_editAt (fun t u htu => .of_extends (Table.gives_completeKey htu).1) hedit

theorem growsAt_linkKeys (h : (linkKeys pos).Gives d w e) : GrowsAt pos d e := by
  cases ht : d.tables[pos]? with
  | some t =>
    obtain ⟨u, -, -, -, hg, -⟩ := gives_linkKeys ht h
    exact hg
  | none =>
    simp only [linkKeys, Change.gives_bind, Change.gives_get] at h
    obtain ⟨_, _, ⟨rfl, rfl⟩, h⟩ := h
    rw [ht] at h
    obtain ⟨-, rfl⟩ := Change.gives_pure.mp h
    exact .refl pos _

theorem growsAt_addKeyIndices (h : (addKeyIndices p pos).Gives d w e) : GrowsAt pos d e := by
  cases ht : d.tables[pos]? with
  | some t =>
    obtain ⟨u, hext, -, he, -⟩ := gives_addKeyIndices ht h
    exact (extend_table ht hext he).2.1
  | none =>
    simp only [addKeyIndices, Change.gives_bind, Change.gives_get] at h
    obtain ⟨_, _, ⟨rfl, rfl⟩, h⟩ := h
    rw [ht] at h
    obtain ⟨-, rfl⟩ := Change.gives_pure.mp h
    exact .refl pos _

/-- Finalizing the table at a position lets tables grow, whatever their names. -/
theorem growsAt_finalizeTable (h : (finalizeTable p pos).Gives d w e) : GrowsAt pos d e := by
  simp only [finalizeTable, Change.gives_bind] at h
  obtain ⟨_, d₁, hheavy, _, d₂, hdrop, _, d₃, hkeys, _, d₄, hlink, _, d₅, hidx, hwarn⟩ := h
  have h₁ : GrowsAt pos d d₁ := .of_editAt (fun t u htu => .of_extends (Table.gives_addHeavyIndices htu).1) hheavy
  have h₂ : GrowsAt pos d₁ d₂ := .of_editAt (fun t u htu => .of_extends (Table.gives_dropUnusedIdMethod htu).1) hdrop
  obtain rfl := gives_editAt_warnWithoutKey.mp hwarn
  exact h₁.trans <| h₂.trans <| (growsAt_completeKeys hkeys).trans <| (growsAt_linkKeys hlink).trans <|
    growsAt_addKeyIndices hidx

/-- The table `t` at a position of `d` is finalized, apart from its back edges. -/
structure FinalizedAt (d : Database) (p : Platform) (pos : Nat) (t : Table) : Prop where
  complete : t.Complete p d
  flag : t.containsForeignKey = t.refersByKey
  resolved : ∀ k ∈ t.foreignKeys, d.Resolved pos k

/-- The steps before the keys are linked extend the table. They see to its heavy indices, its id method
    and its implicit keys. -/
theorem gives_extendTable {d₁ d₂ : Database} {w₁ w₂ : Unit} (hd : d.DistinctNames) (ht : d.tables[pos]? = some t)
    (hheavy : (editAt pos Table.addHeavyIndices).Gives d w₁ d₁)
    (hdrop : (editAt pos Table.dropUnusedIdMethod).Gives d₁ w₂ d₂) (hkeys : (completeKeys pos).Gives d₂ w e) :
    ∃ u, e.tables[pos]? = some u ∧ d.Grows e ∧ (∀ ks, d.Linked ks → e.Linked ks) ∧
      (u.isHeavyIndexing = true → ∀ names ∈ properSuffixes u.primaryKeyNames, u.hasIndexOver names = true) ∧
      (u.idMethod = .native → u.hasAutoIncrement = true) ∧ ∀ k ∈ u.foreignKeys, k.isImplicit = false := by
  obtain ⟨t₁, h₁, he₁⟩ := (gives_editAt_of_getElem? ht).mp hheavy
  obtain ⟨hext₁, hsuffixes⟩ := Table.gives_addHeavyIndices h₁
  obtain ⟨ht₁, hg₁, hl₁⟩ := extend_table ht hext₁ he₁
  obtain ⟨t₂, h₂, he₂⟩ := (gives_editAt_of_getElem? ht₁).mp hdrop
  obtain ⟨hext₂, hcounts⟩ := Table.gives_dropUnusedIdMethod h₂
  obtain ⟨ht₂, hg₂, hl₂⟩ := extend_table ht₁ hext₂ he₂
  have hd₁ := hg₁.grows.distinctNames hd
  have hd₂ := hg₂.grows.distinctNames hd₁
  obtain ⟨u, hext, he, hexplicit⟩ :=
    gives_completeKeys ht₂ (hd₂.inTables t₂ (List.mem_of_getElem? ht₂)).foreignKeys hkeys
  obtain ⟨hu, hg, hl⟩ := extend_table ht₂ hext he
  have hgrow₁ : t.Grows t₁ := .of_extends hext₁
  have hgrow₂ : t₂.Grows u := .of_extends hext
  refine ⟨u, hu, (hg₁.trans (hg₂.trans hg)).grows, fun ks hks => hl hd₂ _ (hl₂ hd₁ _ (hl₁ hd _ hks)), ?_, ?_, hexplicit⟩
  · -- The indices are those that `t` wants; a table that grows wants the same ones.
    have hheavy₁ : t₁.isHeavyIndexing = true →
        ∀ names ∈ properSuffixes t₁.primaryKeyNames, t₁.hasIndexOver names = true := by
      rw [hgrow₁.isHeavyIndexing, hgrow₁.primaryKeyNames]
      exact hsuffixes
    exact ((Table.Grows.of_extends hext₂).trans hgrow₂).heavy hheavy₁
  · exact hgrow₂.counts hcounts

/-- Finalizing the table at a position adds its keys to the linked ones. -/
theorem gives_finalizeTable (hd : d.DistinctNames) (ht : d.tables[pos]? = some t)
    (h : (finalizeTable p pos).Gives d w e) :
    ∃ u, e.tables[pos]? = some u ∧ e.FinalizedAt p pos u ∧ ∀ ks, d.Linked ks → e.Linked (ks ++ u.foreignKeys) := by
  simp only [finalizeTable, Change.gives_bind] at h
  obtain ⟨_, d₁, hheavy, _, d₂, hdrop, _, d₃, hkeys, _, d₄, hlink, _, d₅, hidx, hwarn⟩ := h
  obtain ⟨t₃, ht₃, hg₃, hl₃, hheavy₃, hcounts₃, hexplicit₃⟩ := gives_extendTable hd ht hheavy hdrop hkeys
  have hd₃ := hg₃.distinctNames hd
  obtain ⟨t₄, ht₄, hbare₄, hflag₄, hg₄, hres₄, hl₄⟩ := gives_linkKeys ht₃ hlink
  have hd₄ := hg₄.grows.distinctNames hd₃
  obtain ⟨u, hext, hu, he, hcovered⟩ := gives_addKeyIndices ht₄ hidx
  obtain ⟨hut, hg, hl⟩ := extend_table ht₄ hext he
  obtain rfl := gives_editAt_warnWithoutKey.mp hwarn
  have hkeys₄ := Table.foreignKeys_of_bare hbare₄
  have hkeysu : u.foreignKeys = t₃.foreignKeys := by rw [hu, hkeys₄]
  have hgrow : t₃.Grows u := (Table.Grows.of_bare hbare₄).trans (.of_extends hext)
  have hcomplete : u.Complete p e := by
    refine ⟨hgrow.heavy hheavy₃, hgrow.counts hcounts₃, ?_, fun hneeds k hk => ?_⟩
    · rw [hkeysu]
      exact hexplicit₃
    · -- Whether indices are wanted was asked of the linked table.
      have hneeds₄ : p.needsKeyIndex d₄ t₄ = true := by
        have huv : u.vendor = t₄.vendor := by rw [hu]
        rwa [Table.needsKeyIndex_congr hg.grows.vendor huv] at hneeds
      rw [hkeysu] at hk
      refine hcovered hneeds₄ k (hkeys₄ ▸ hk) ?_
      simpa [ForeignKey.isImplicit, ForeignKey.localColumns] using hexplicit₃ k hk
  refine ⟨u, hut, ⟨hcomplete, ?_, fun k hk => ?_⟩, fun ks hks => ?_⟩
  · rw [hu]
    exact hflag₄
  · rw [hkeysu] at hk
    exact (hres₄ k hk).grows hg.grows
  · rw [hkeysu]
    exact hl hd₄ _ (hl₄ hd₃ _ (hl₃ _ hks))

end Database

end Schemata
