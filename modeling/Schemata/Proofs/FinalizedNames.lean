import Schemata.Proofs.GeneratedNames
import Schemata.Proofs.HeavyIndices
import Schemata.Proofs.ImplicitKeys
import Schemata.Proofs.KeyIndices

/-!
# Generated names in a finalization

Where all names in a table were generated, what finalization adds stops it for the name of an index only where
that name clashes. Nothing else that is done to a database without pending behaviors, to its keys above all,
ends with an error of this kind.
-/

namespace Schemata

open Change
open Error (IsClash Allows)

variable {wants : NameKind → List String → Prop} {kind : NameKind}

/-! ### Foreign keys -/

namespace Database

section Ordinary
variable {P : Error → Prop} [Allows P]

theorem resolve_fails (d : Database) (pos : Nat) (k : ForeignKey) : Schemata.FailsWithin P (d.resolve pos k) := by
  unfold resolve
  split <;> simp

theorem addImplicitColumn_fails (key : String) (c : Column) (t : Table) :
    (Table.addImplicitColumn key c).FailsWithin P t := by
  refine .of_get ?_
  dsimp only
  split
  · exact Allows.ordinary _ trivial
  · exact (failsWithin_report _).bind fun _ t _ => failsWithin_attempt (Table.addColumn_fails t _)

theorem completeKey_fails (pos : Nat) (k : ForeignKey) (d : Database) : (completeKey pos k).FailsWithin P d := by
  refine .of_get ((failsWithin_ofExcept (resolve_fails d pos k)).bind fun target _ _ => ?_)
  split
  · exact failsWithin_pure _
  · split
    · refine .within (.atPosition fun t _ => ?_)
      exact (FailsWithin.forEach (fun c _ => addImplicitColumn_fails _ c) t).bind fun _ _ _ => failsWithin_modify _
    · exact Allows.ordinary _ trivial

theorem completeKeys_fails (pos : Nat) (d : Database) : (completeKeys pos).FailsWithin P d := by
  refine .of_get ?_
  split
  · exact failsWithin_pure _
  · exact .forEach (fun k _ => completeKey_fails pos k) d

theorem linkKey_fails (pos : Nat) (k : ForeignKey) (d : Database) : (linkKey pos k).FailsWithin P d := by
  refine .of_get ((failsWithin_ofExcept (resolve_fails d pos k)).bind fun target _ _ => ?_)
  split
  · split
    · exact Allows.ordinary _ trivial
    · split
      · exact Allows.ordinary _ trivial
      · exact (failsWithin_modify _).bind fun _ _ _ => failsWithin_report _
  · exact failsWithin_pure _

theorem linkKeys_fails (pos : Nat) (d : Database) : (linkKeys pos).FailsWithin P d := by
  refine .of_get ?_
  split
  · exact failsWithin_pure _
  · exact (FailsWithin.forEach (fun k _ => linkKey_fails pos k) d).bind fun _ _ _ => failsWithin_modify _

end Ordinary

end Database

/-! ### Missing indices -/

namespace Table
variable {t u v : Table} {i : Index} {names : List String}

theorem addHeavyIndex_fails {P : Error → Prop} (h : Schemata.FailsWithin P (t.addMissingIndex (Index.ofNames names))) :
    (addHeavyIndex names).FailsWithin P t := by
  refine .of_get ?_
  unfold addMissingIndex at h
  rw [Index.columnNames_ofNames] at h
  split
  · exact failsWithin_pure _
  · rename_i hover
    rw [if_neg hover] at h
    exact (failsWithin_attempt h).bind fun _ _ _ => failsWithin_report _

theorem addKeyIndex_fails {P : Error → Prop} (h : Schemata.FailsWithin P (t.addMissingIndex i)) :
    (addKeyIndex i).FailsWithin P t := by
  refine .of_get ?_
  unfold addMissingIndex at h
  split
  · exact failsWithin_pure _
  · rename_i hover
    rw [if_neg hover] at h
    exact (failsWithin_attempt h).bind fun _ _ _ => failsWithin_report _

theorem addMissingIndex_named (h : t.NamedFor wants) (hkind : kind ≠ .unique)
    (hname : (i.named t.name .index).name = generatedName t.name kind i.columnNames)
    (hwants : wants kind i.columnNames) :
    Schemata.FailsWithin (IsClash (ClashesIn wants t.name)) (t.addMissingIndex i) ∧
      ∀ u, t.addMissingIndex i = .ok u → u.name = t.name ∧ u.NamedFor wants := by
  unfold addMissingIndex
  cases hover : t.hasIndexOver i.columnNames with
  | true =>
    refine ⟨trivial, fun u hu => ?_⟩
    cases hu
    exact ⟨rfl, h⟩
  | false =>
    have hnew : ∀ j ∈ t.among kind, j.columnNames ≠ i.columnNames := by
      intro j hj heq
      have hj' : j ∈ t.indices := by
        cases kind with
        | unique => exact absurd rfl hkind
        | _ => exact hj
      simp only [hasIndexOver, List.any_eq_false, Index.hasColumns, beq_iff_eq] at hover
      exact hover j hj' heq
    have hadds := addsNamed_addIndex h hkind hname hwants hnew
    exact ⟨hadds.fails, fun u hu => ⟨hadds.name u hu, hadds.named u hu⟩⟩

/-- Missing indices are added under names of a kind, unless these clash. -/
theorem addMissingIndices_named {α : Type} (f : α → Edit Table Unit) (index : α → Index)
    (hfails : ∀ a t (P : Error → Prop), Schemata.FailsWithin P (t.addMissingIndex (index a)) → (f a).FailsWithin P t)
    (hgives : ∀ a t u, (f a).Gives t () u → t.addMissingIndex (index a) = .ok u) {l : List α}
    (hkind : kind ≠ .unique) (ht : t.NamedFor wants)
    (hl : ∀ a ∈ l, ((index a).named t.name .index).name = generatedName t.name kind (index a).columnNames ∧
      wants kind (index a).columnNames) :
    (Change.forEach f l).FailsWithin (IsClash (ClashesIn wants t.name)) t ∧
      ∀ u, (Change.forEach f l).Gives t () u → u.name = t.name ∧ u.NamedFor wants := by
  have hstep : ∀ a ∈ l, ∀ s : Table, s.name = t.name ∧ s.NamedFor wants →
      (f a).FailsWithin (IsClash (ClashesIn wants t.name)) s ∧
        ∀ u, (f a).Gives s () u → u.name = t.name ∧ u.NamedFor wants := by
    rintro a ha s ⟨hname, hs⟩
    obtain ⟨hgenerated, hwants⟩ := hl a ha
    obtain ⟨hfail, hgive⟩ := addMissingIndex_named hs hkind (hname ▸ hgenerated) hwants
    rw [hname] at hfail hgive
    exact ⟨hfails a s _ hfail, fun u hu => hgive u (hgives a s u hu)⟩
  refine ⟨.forEach_keeps hstep ⟨rfl, ht⟩, fun u hu => ?_⟩
  refine hu.forEach (R := fun s u : Table => s.name = t.name ∧ s.NamedFor wants → u.name = t.name ∧ u.NamedFor wants)
    (fun _ => id) (fun h h' hs => h' (h hs)) ?_ ⟨rfl, ht⟩
  exact fun a ha s u hsu hs => (hstep a ha s hs).2 u hsu

theorem addHeavyIndices_named (h : t.NamedFor wants)
    (hwants : t.isHeavyIndexing = true → ∀ names ∈ t.keySuffixes, wants .index names) :
    addHeavyIndices.FailsWithin (IsClash (ClashesIn wants t.name)) t ∧
      ∀ u, addHeavyIndices.Gives t () u → u.name = t.name ∧ u.NamedFor wants := by
  have hnames : t.isHeavyIndexing = true → ∀ names ∈ properSuffixes t.primaryKeyNames,
      ((Index.ofNames names).named t.name .index).name =
        generatedName t.name .index (Index.ofNames names).columnNames ∧
      wants .index (Index.ofNames names).columnNames := by
    intro hheavy names hnames
    rw [← keySuffixes_eq t] at hnames
    exact ⟨(Index.name_named_of_none rfl).1, (Index.columnNames_ofNames names).symm ▸ hwants hheavy names hnames⟩
  have hloop := fun hheavy => addMissingIndices_named addHeavyIndex Index.ofNames
    (fun _ _ _ => addHeavyIndex_fails) (fun _ _ _ => gives_addHeavyIndex.mp) (by simp) h (hnames hheavy)
  constructor
  · refine .of_get ?_
    split
    · rename_i hheavy
      exact (hloop hheavy).1
    · exact failsWithin_pure _
  · intro u hu
    simp only [addHeavyIndices, gives_bind, gives_get] at hu
    obtain ⟨_, _, ⟨rfl, rfl⟩, hu⟩ := hu
    split at hu
    · rename_i hheavy
      exact (hloop hheavy).2 u hu
    · obtain ⟨-, rfl⟩ := gives_pure.mp hu
      exact ⟨rfl, h⟩

theorem dropUnusedIdMethod_fails {P : Error → Prop} (t : Table) : dropUnusedIdMethod.FailsWithin P t := by
  refine .of_get ?_
  split
  · exact (failsWithin_report _).bind fun _ _ _ => failsWithin_modify _
  · exact failsWithin_pure _

theorem warnWithoutKey_fails {P : Error → Prop} (t : Table) : warnWithoutKey.FailsWithin P t := by
  refine .of_get ?_
  split
  · exact failsWithin_report _
  · exact failsWithin_pure _

end Table

namespace Database
variable {d s e : Database} {p : Platform} {pos : Nat} {t v : Table}

/-! ### One table -/

/-- The names of the table `t` of `d` were generated for columns that are wanted, and so are the names that
    finalization may add. -/
structure AllWanted (p : Platform) (d : Database) (wants : NameKind → List String → Prop) (t : Table) : Prop where
  named : t.NamedFor wants
  suffixes : t.isHeavyIndexing = true → ∀ names ∈ t.keySuffixes, wants .index names
  keys : p.OnInnoDB d t → ∀ k ∈ t.foreignKeys, wants .key (d.completedKey k).localColumns

theorem AllWanted.of_bare (h : d.AllWanted p wants t) (hv : v.bare = t.bare) : d.AllWanted p wants v := by
  refine ⟨h.named.congr (Table.Grows.of_bare hv).name (Table.indices_of_bare hv) (Table.uniques_of_bare hv), ?_, ?_⟩
  · have hsuffixes : v.keySuffixes = t.keySuffixes := by
      rw [Table.keySuffixes, (Table.Grows.of_bare hv).primaryKeyNames, Table.keySuffixes]
    rw [hsuffixes, Table.isHeavyIndexing, Table.settings_of_bare hv]
    exact h.suffixes
  · rw [onInnoDB_congr rfl (Table.vendor_of_bare hv), Table.foreignKeys_of_bare hv]
    exact h.keys

/-- The indices of the platform for a table whose keys are completed. -/
theorem addKeyIndices_fails (ht : s.tables[pos]? = some t) (hnamed : t.NamedFor wants)
    (hkeys : p.OnInnoDB s t → ∀ k ∈ t.foreignKeys, wants .key k.localColumns) :
    (addKeyIndices p pos).FailsWithin (IsClash (ClashesIn wants t.name)) s := by
  refine .of_get ?_
  rw [ht]
  refine .within (.atPosition fun u hu => ?_)
  obtain rfl := Option.some.inj (ht.symm.trans hu)
  have hkind : NameKind.key ≠ .unique := by simp
  refine (Table.addMissingIndices_named Table.addKeyIndex id (fun _ _ _ => Table.addKeyIndex_fails)
    (fun _ _ _ => Table.gives_addKeyIndex.mp) hkind hnamed ?_).1
  intro i hi
  rw [Platform.extraIndices] at hi
  split at hi
  · rename_i hneeds
    obtain ⟨k, hk, hkey⟩ := List.mem_filterMap.mp hi
    obtain ⟨-, -, rfl⟩ := Table.keyIndex?_eq_some.mp hkey
    refine ⟨?_, ?_⟩
    · rw [id, Table.columnNames_indexOver]
      rfl
    · rw [id, Table.columnNames_indexOver]
      exact hkeys (Platform.onInnoDB_iff.mpr hneeds) k hk
  · cases hi

/-- A table when its keys are completed: its indices are those after heavy indexing. -/
theorem CompletesKeys.rest {t₁ t₂ : Table} (h₁ : Table.addHeavyIndices.Gives t () t₁)
    (h₂ : Table.dropUnusedIdMethod.Gives t₁ () t₂) (hkeys : (t.foreignKeys.map (·.name)).Nodup)
    (h : d.CompletesKeys (t₂.foreignKeys.filter (·.isImplicit)) t₂ v) :
    v.name = t.name ∧ v.vendor = t.vendor ∧ v.indices = t₁.indices ∧ v.uniques = t₁.uniques ∧
      v.foreignKeys = t.foreignKeys.map d.completedKey := by
  obtain ⟨foreign, hforeign⟩ := h.target
  have hv := h.columns fun k hk => (hforeign k hk).1
  have hsettings := Table.rest_dropUnusedIdMethod h₂
  have hindices := Table.rest_addHeavyIndices h₁
  have hfk : t₂.foreignKeys = t.foreignKeys := by rw [hsettings, hindices]
  refine ⟨?_, ?_, ?_, ?_, ?_⟩
  · rw [hv, hsettings, hindices]
  · rw [hv, hsettings, hindices]
  · rw [hv, hsettings]
  · rw [hv, hsettings]
  · rw [h.all (hfk ▸ hkeys), hfk]

/-- A table in a run stops it for the name of an index only where generated names clash. -/
theorem finalizeTable_fails (hg : d.Grows s) (ht : s.tables[pos]? = some t)
    (hkeys : (t.foreignKeys.map (·.name)).Nodup) (h : d.AllWanted p wants t) :
    (finalizeTable p pos).FailsWithin (IsClash (ClashesIn wants t.name)) s := by
  obtain ⟨hfails, hheavy⟩ := Table.addHeavyIndices_named h.named h.suffixes
  refine FailsWithin.bind (.within (.atPosition fun u hu => ?_)) fun _ d₁ hd₁ => ?_
  · obtain rfl := Option.some.inj (ht.symm.trans hu)
    exact hfails
  obtain ⟨t₁, h₁, rfl⟩ := (gives_editAt_of_getElem? ht).mp hd₁
  obtain ⟨hname₁, hnamed₁⟩ := hheavy t₁ h₁
  obtain ⟨ht₁, hg₁, -⟩ := extend_table ht (Table.gives_addHeavyIndices h₁).1 rfl
  refine FailsWithin.bind (.within (.atPosition fun u _ => Table.dropUnusedIdMethod_fails u)) fun _ d₂ hd₂ => ?_
  obtain ⟨t₂, h₂, rfl⟩ := (gives_editAt_of_getElem? ht₁).mp hd₂
  obtain ⟨ht₂, hg₂, -⟩ := extend_table ht₁ (Table.gives_dropUnusedIdMethod h₂).1 rfl
  have hgrow := hg.trans (hg₁.trans hg₂).grows
  refine (completeKeys_fails pos _).bind fun _ d₃ hd₃ => ?_
  obtain ⟨v, hv, rfl⟩ := (gives_completeKeyList_iff hgrow ht₂).mp ((completeKeys_eq ht₂).mp hd₃)
  obtain ⟨hv', hg₃, -⟩ := extend_table ht₂ hv.grows rfl
  refine (linkKeys_fails pos _).bind fun _ d₄ hd₄ => ?_
  obtain ⟨x, hx, hbx, -, hg₄, -, -⟩ := gives_linkKeys hv' hd₄
  -- The table that is linked has the indices after heavy indexing, and its keys are completed.
  obtain ⟨hname, hvendor, hindices, huniques, hcompleted⟩ := hv.rest h₁ h₂ hkeys
  have hxname := (Table.Grows.of_bare hbx).name
  have hnamed : x.NamedFor wants := by
    refine hnamed₁.congr ?_ ((Table.indices_of_bare hbx).trans hindices) ((Table.uniques_of_bare hbx).trans huniques)
    rw [hxname, hname, hname₁]
  have hindexed : (addKeyIndices p pos).FailsWithin (IsClash (ClashesIn wants x.name)) d₄ := by
    refine addKeyIndices_fails hx hnamed fun hengine k hk => ?_
    rw [Table.foreignKeys_of_bare hbx, hcompleted] at hk
    obtain ⟨l, hl, rfl⟩ := List.mem_map.mp hk
    refine h.keys ((onInnoDB_congr ?_ ((Table.vendor_of_bare hbx).trans hvendor)).mp hengine) l hl
    exact (hgrow.trans (hg₃.trans hg₄).grows).vendor
  rw [hxname, hname] at hindexed
  exact hindexed.bind fun _ _ _ => .within (.atPosition fun u _ => Table.warnWithoutKey_fails u)

/-! ### All tables -/

/-- A run over the tables stops for the name of an index only where generated names clash in one of them. -/
theorem finalizeTables_fails {C : String → String → Prop} (hd : d.DistinctNames)
    (h : ∀ t ∈ d.tables, ∃ wants, d.AllWanted p wants t ∧ ∀ name, Clashes wants t.name name → C t.name name) :
    (finalizeTables p).FailsWithin (IsClash C) d := by
  refine .of_get (.forEach_range (fun n s => d.Reached p n s) ?_ (.zero d))
  intro pos hpos s hs
  have ht := List.getElem?_eq_getElem hpos
  have hmem := List.getElem_mem hpos
  refine ⟨?_, fun e he => (hs.step ht he).1⟩
  obtain ⟨v, hv, hbare⟩ := hs.rest pos (Nat.le_refl pos) _ ht
  obtain ⟨wants, hwanted, hclash⟩ := h _ hmem
  have hkeys : (v.foreignKeys.map (·.name)).Nodup := by
    rw [Table.foreignKeys_of_bare hbare]
    exact (hd.inTables _ hmem).foreignKeys
  refine (finalizeTable_fails hs.grows hv hkeys (hwanted.of_bare hbare)).mono fun e he => he.mono ?_
  rintro owner name ⟨rfl, hc⟩
  rw [(Table.Grows.of_bare hbare).name] at hc ⊢
  exact hclash name hc

/-! ### Databases -/

/-- For these columns a table of `d` has an index, or it gets one on the platform `p`: for the suffixes of its
    primary key where it is indexed heavily, and for its completed keys on InnoDB. -/
inductive Wants (p : Platform) (d : Database) (t : Table) : NameKind → List String → Prop where
  | index {i : Index} (h : i ∈ t.indices) : Wants p d t .index i.columnNames
  | unique {i : Index} (h : i ∈ t.uniques) : Wants p d t .unique i.columnNames
  | suffix {names : List String} (heavy : t.settings.heavyIndexing.getD d.settings.heavyIndexing = true)
      (h : names ∈ t.keySuffixes) : Wants p d t .index names
  | key {k : ForeignKey} (engine : p.OnInnoDB d t) (h : k ∈ t.foreignKeys) :
      Wants p d t .key (d.completedKey k).localColumns

end Database

/-- All indices have generated names, as indices or unique constraints that were declared. -/
def Table.Generated (t : Table) : Prop :=
  t.NamedFor fun kind _ => kind ≠ .key

namespace Database
variable {r : Registry} {limit : Nat}

theorem allWanted_prepare (ht : t.Generated) : (prepareTables d).AllWanted p (d.Wants p t) (t.prepare d) where
  named := by
    refine (ht.congr rfl rfl rfl : (t.prepare d).Generated).mono fun kind i hi hkind => ?_
    cases kind with
    | index => exact .index hi
    | unique => exact .unique hi
    | key => exact absurd rfl hkind
  suffixes hheavy names hnames := by
    have hsuffixes : (t.prepare d).keySuffixes = t.keySuffixes := by
      have hkey : (t.prepare d).primaryKeyNames = t.primaryKeyNames := by
        rw [Table.primaryKeyNames, primaryKey_prepare, List.map_map]
        rfl
      rw [Table.keySuffixes, hkey, Table.keySuffixes]
    refine .suffix ?_ (hsuffixes ▸ hnames)
    cases hown : t.settings.heavyIndexing with
    | none => simpa [Table.isHeavyIndexing, Table.prepare, OwnSettings.orElse, hown] using hheavy
    | some heavy => simpa [Table.isHeavyIndexing, Table.prepare, OwnSettings.orElse, hown] using hheavy
  keys hengine k hk := by
    rw [completedKey_prepareTables]
    exact .key ((onInnoDB_congr rfl rfl).mp hengine) hk

/-- A database without pending behaviors is settled, unless no rounds are allowed. -/
theorem Quiet.settle_fails {P : Error → Prop} [Allows P] (hq : d.Quiet) :
    (Database.settle limit r).FailsWithin P d := by
  cases limit with
  | zero => exact .of_get (Allows.ordinary _ trivial)
  | succ n =>
    obtain ⟨hresult, -⟩ := hq.settle (r := r) (Nat.succ_pos n)
    rw [Change.FailsWithin, hresult]
    trivial

theorem Quiet.gives_settle (hq : d.Quiet) {ran : List HookRun} (h : (Database.settle limit r).Gives d ran e) :
    e = d := by
  cases limit with
  | zero =>
    have herror : (Database.settle 0 r d).result = .error d.unsettled := rfl
    rw [Change.Gives, herror] at h
    cases h.1
  | succ n => exact ((hq.settle (Nat.succ_pos n)).unique h).2

theorem finalize_fails (hd : d.DistinctNames) (hq : d.Quiet) (hnames : ∀ t ∈ d.tables, t.Generated) :
    (finalize limit r p).FailsWithin
      (IsClash fun owner name => ∃ t ∈ d.tables, t.name = owner ∧ Clashes (d.Wants p t) owner name) d := by
  refine hq.settle_fails.bind fun ran e he => ?_
  obtain rfl := hq.gives_settle he
  refine (failsWithin_modify _).bind fun _ s hs => ?_
  obtain rfl := gives_modify.mp hs
  refine FailsWithin.bind (finalizeTables_fails (prepareTables_distinctNames hd) ?_) fun _ s _ => ?_
  · intro t ht
    obtain ⟨u, hu, rfl⟩ := List.mem_map.mp ht
    exact ⟨_, allWanted_prepare (hnames u hu), fun name hclash => ⟨u, hu, rfl, hclash⟩⟩
  · exact .of_get ((failsWithin_report _).bind fun _ _ _ => failsWithin_pure _)

end Database

end Schemata
