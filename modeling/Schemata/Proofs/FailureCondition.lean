import Schemata.Proofs.KeyChecks

/-!
# When finalization fails

Without pending behaviors and heavy indices, on a platform without rules of its own, finalization succeeds
exactly where the foreign keys of each table are sound, and otherwise ends with the first fault among them.
-/

namespace Schemata.Database
variable {d : Database} {i : Nat} {t : Table} {k : ForeignKey} {ks : List ForeignKey} {r : Registry} {limit : Nat}

/-! ### Tables that are prepared -/

theorem primaryKey_prepare (d : Database) (t : Table) :
    (t.prepare d).primaryKey = t.primaryKey.map (·.clearReferrers) := by
  show t.bare.primaryKey = _
  exact Table.bare_primaryKey t

theorem hasPrimaryKey_prepare (d : Database) (t : Table) : (t.prepare d).hasPrimaryKey = t.hasPrimaryKey := by
  rw [Table.hasPrimaryKey_eq, primaryKey_prepare, List.isEmpty_map, Table.hasPrimaryKey_eq]

theorem newColumns_prepareTables (d : Database) : (prepareTables d).newColumns = d.newColumns := by
  funext k
  rw [newColumns, newColumns, target?_prepareTables]
  cases d.target? k with
  | none => rfl
  | some foreign =>
    simp only [Option.map_some, Option.getD_some, primaryKey_prepare, List.map_map]
    rfl

theorem implicitNames_prepareTables (d : Database) (t : Table) :
    (prepareTables d).implicitNames (t.prepare d) = d.implicitNames t := by
  rw [implicitNames, newColumns_prepareTables]
  rfl

theorem hasColumnAt_prepareTables (d : Database) (i j : Nat) (t : Table) (name : String) :
    (prepareTables d).hasColumnAt i j (t.prepare d) name = d.hasColumnAt i j t name := by
  rw [hasColumnAt, hasColumn_prepare, implicitNames_prepareTables, hasColumnAt]

theorem completionChecks_prepareTables (d : Database) : (prepareTables d).completionChecks = d.completionChecks := by
  funext owner taken k
  unfold completionChecks
  rw [target?_prepareTables, newColumns_prepareTables]
  cases d.target? k with
  | none => rfl
  | some foreign =>
    simp only [Option.map_some, hasPrimaryKey_prepare]
    rfl

theorem implicitChecks_prepareTables (d : Database) (owner : String) (taken : List String) (ks : List ForeignKey) :
    (prepareTables d).implicitChecks owner taken ks = d.implicitChecks owner taken ks := by
  induction ks generalizing taken with
  | nil => rfl
  | cons k ks ih =>
    rw [implicitChecks, ih, completionChecks_prepareTables, newColumns_prepareTables, implicitChecks]

theorem linkChecks_prepareTables (d : Database) (i : Nat) (t : Table) (k : ForeignKey) :
    (prepareTables d).linkChecks i (t.prepare d) k = d.linkChecks i t k := by
  unfold linkChecks
  rw [resolve?_prepareTables]
  cases d.resolve? k with
  | none => rfl
  | some j =>
    have hj : (prepareTables d).tables[j]? = d.tables[j]?.map (Table.prepare d) := List.getElem?_map
    dsimp only
    rw [hj]
    cases d.tables[j]? with
    | none => rfl
    | some foreign =>
      simp only [Option.map_some, hasColumnAt_prepareTables]
      rfl

theorem completedKey_prepareTables (d : Database) : (prepareTables d).completedKey = d.completedKey := by
  funext k
  unfold completedKey
  rw [target?_prepareTables]
  cases d.target? k with
  | none => rfl
  | some foreign =>
    simp only [Option.map_some, Option.getD_some, primaryKey_prepare, Table.implicitReferences, List.map_map]
    rfl

theorem keyChecks_prepareTables (d : Database) : (prepareTables d).keyChecks = d.keyChecks := by
  have htable : ∀ i t, (prepareTables d).tableChecks i (t.prepare d) = d.tableChecks i t := by
    intro i t
    rw [tableChecks, implicitChecks_prepareTables, completedKey_prepareTables, funext (linkChecks_prepareTables d i t)]
    have hnames : (t.prepare d).columns.map (·.name) = t.columns.map (·.name) := Table.bare_columnNames t
    rw [hnames]
    rfl
  have hlen : (prepareTables d).tables.length = d.tables.length := List.length_map _
  rw [keyChecks, keyChecks, hlen]
  congr 1
  funext i
  have hi : (prepareTables d).tables[i]? = d.tables[i]?.map (Table.prepare d) := List.getElem?_map
  rw [hi, Option.map_map, funext (f := _ ∘ _) (htable i)]

/-! ### Checks that hold -/

/-- New columns are fresh when they differ from each other and from those that are taken. -/
theorem freshChecks_hold {owner : String} {taken names : List String} :
    (∀ c ∈ freshChecks owner k taken names, c.holds = true) ↔ names.Nodup ∧ ∀ name ∈ names, name ∉ taken := by
  induction names generalizing taken with
  | nil => simp [freshChecks]
  | cons name names ih =>
    rw [freshChecks, List.forall_mem_cons, ih, List.nodup_cons, List.forall_mem_cons]
    simp only [Bool.not_eq_true', List.contains_eq_mem, decide_eq_false_iff_not, List.mem_append, List.mem_singleton,
      not_or]
    constructor
    · rintro ⟨hname, hnodup, hrest⟩
      exact ⟨⟨fun hmem => (hrest name hmem).2 rfl, hnodup⟩, hname, fun n hn => (hrest n hn).1⟩
    · rintro ⟨⟨hname', hnodup⟩, hname, hrest⟩
      exact ⟨hname, hnodup, fun n hn => ⟨hrest n hn, fun heq => hname' (heq ▸ hn)⟩⟩

theorem completionChecks_hold {owner : String} {taken : List String} :
    (∀ c ∈ d.completionChecks owner taken k, c.holds = true) ↔
      (∃ foreign, d.target? k = some foreign ∧ foreign.hasPrimaryKey = true) ∧ (d.newColumns k).Nodup ∧
        ∀ name ∈ d.newColumns k, name ∉ taken := by
  unfold completionChecks
  cases d.target? k with
  | none => simp
  | some foreign => simp [freshChecks_hold]

theorem implicitChecks_hold {owner : String} {taken : List String} :
    (∀ c ∈ d.implicitChecks owner taken ks, c.holds = true) ↔
      (∀ k ∈ ks, ∃ foreign, d.target? k = some foreign ∧ foreign.hasPrimaryKey = true) ∧
        (ks.flatMap d.newColumns).Nodup ∧ ∀ name ∈ ks.flatMap d.newColumns, name ∉ taken := by
  induction ks generalizing taken with
  | nil => simp [implicitChecks]
  | cons k ks ih =>
    rw [implicitChecks, List.forall_mem_append, completionChecks_hold, ih, List.flatMap_cons, List.nodup_append',
      List.forall_mem_cons, List.forall_mem_append]
    simp only [List.mem_append, not_or]
    constructor
    · rintro ⟨⟨hk, hnew, hfresh⟩, hks, hlater, hrest⟩
      exact ⟨⟨hk, hks⟩, ⟨hnew, hlater, fun name hname hmem => (hrest name hmem).2 hname⟩, hfresh,
        fun name hname => (hrest name hname).1⟩
    · rintro ⟨⟨hk, hks⟩, ⟨hnew, hlater, hdisjoint⟩, hfresh, hrest⟩
      exact ⟨⟨hk, hnew, hfresh⟩, hks, hlater, fun name hname => ⟨hrest name hname, fun hmem => hdisjoint hmem hname⟩⟩

theorem linkChecks_hold : (∀ c ∈ d.linkChecks i t k, c.holds = true) ↔
    ∃ j foreign, d.resolve? k = some j ∧ d.tables[j]? = some foreign ∧
      (∀ name ∈ k.localColumns, d.hasColumnAt i i t name = true) ∧
      ∀ name ∈ k.foreignColumns, d.hasColumnAt i j foreign name = true := by
  unfold linkChecks
  cases hres : d.resolve? k with
  | none => simp
  | some j =>
    obtain ⟨foreign, hj⟩ : ∃ foreign, d.tables[j]? = some foreign := ⟨_, List.getElem?_eq_getElem (resolve?_lt hres)⟩
    simp only [hj, List.forall_mem_append, List.forall_mem_cons, List.forall_mem_map, true_and]
    constructor
    · rintro ⟨hlocal, hfar⟩
      exact ⟨j, foreign, rfl, hj, hlocal, hfar⟩
    · rintro ⟨j', foreign', hj', hforeign', hlocal, hfar⟩
      cases hj'
      rw [hj] at hforeign'
      cases hforeign'
      exact ⟨hlocal, hfar⟩

theorem hasColumnAt_iff {j : Nat} {name : String} : d.hasColumnAt i j t name = true ↔
    (∃ c ∈ t.columns, c.name = name) ∨ j ≤ i ∧ name ∈ d.implicitNames t := by
  simp [hasColumnAt, Table.hasColumn]

/-! ### Sound keys -/

/-- What the foreign keys of table `t` at position `i` must fulfil. Each key means a table. The implicit keys
    mean tables with a primary key, and the columns that they get differ from each other and from those of the
    table. The explicit keys name columns that the table has or gets, and columns that the foreign table has,
    or gets by the turn of `t`. -/
structure SoundKeys (d : Database) (i : Nat) (t : Table) : Prop where
  targets : ∀ k ∈ t.foreignKeys, ∃ foreign, d.PointsAt k foreign
  primaryKeys : ∀ k ∈ t.foreignKeys, k.isImplicit = true → ∀ foreign, d.PointsAt k foreign →
    ∃ c ∈ foreign.columns, c.primaryKey = true
  distinct : (d.implicitNames t).Nodup
  fresh : ∀ name ∈ d.implicitNames t, ¬∃ c ∈ t.columns, c.name = name
  localColumns : ∀ k ∈ t.foreignKeys, k.isImplicit = false → ∀ name ∈ k.localColumns,
    (∃ c ∈ t.columns, c.name = name) ∨ name ∈ d.implicitNames t
  foreignColumns : ∀ k ∈ t.foreignKeys, k.isImplicit = false →
    ∀ (j : Nat) foreign, d.resolve? k = some j → d.tables[j]? = some foreign →
      ∀ name ∈ k.foreignColumns, (∃ c ∈ foreign.columns, c.name = name) ∨ j ≤ i ∧ name ∈ d.implicitNames foreign

theorem pointsAt_iff_target? {foreign : Table} : d.PointsAt k foreign ↔ d.target? k = some foreign :=
  pointsAt_iff.trans target?_eq_some.symm

theorem resolve?_completedKey (d e : Database) (k : ForeignKey) : e.resolve? (d.completedKey k) = e.resolve? k := by
  unfold completedKey
  split <;> rfl

/-- A key that got its columns passes the checks of linking. -/
theorem linkChecks_completedKey (hk : k ∈ t.foreignKeys) (himp : k.isImplicit = true)
    (htarget : ∃ foreign, d.target? k = some foreign) :
    ∀ c ∈ d.linkChecks i t (d.completedKey k), c.holds = true := by
  obtain ⟨foreign, hforeign⟩ := htarget
  obtain ⟨j, hres, hj⟩ := target?_eq_some.mp hforeign
  refine linkChecks_hold.mpr ⟨j, foreign, (resolve?_completedKey d d k).trans hres, hj, fun name hname => ?_,
    fun name hname => ?_⟩
  · have hnew : name ∈ d.newColumns k := by
      rw [newColumns_eq hforeign]
      simpa [completedKey, himp, hforeign, ForeignKey.localColumns, Table.implicitReferences] using hname
    exact hasColumnAt_iff.mpr (.inr ⟨Nat.le_refl i, List.mem_flatMap.mpr ⟨k, List.mem_filter.mpr ⟨hk, himp⟩, hnew⟩⟩)
  · obtain ⟨foreign', hforeign', hcol⟩ := hasColumn_of_completedKey himp hname
    rw [hforeign] at hforeign'
    cases hforeign'
    rw [hasColumnAt, hcol, Bool.true_or]

/-- Linking an explicit key looks for the columns that it names. -/
theorem columns_of_linkChecks (hexp : k.isImplicit = false)
    (h : ∀ c ∈ d.linkChecks i t (d.completedKey k), c.holds = true) :
    (∀ name ∈ k.localColumns, (∃ c ∈ t.columns, c.name = name) ∨ name ∈ d.implicitNames t) ∧
      ∀ (j : Nat) foreign, d.resolve? k = some j → d.tables[j]? = some foreign →
        ∀ name ∈ k.foreignColumns, (∃ c ∈ foreign.columns, c.name = name) ∨ j ≤ i ∧ name ∈ d.implicitNames foreign := by
  rw [completedKey_of_explicit hexp] at h
  obtain ⟨j, foreign, hres, hj, hlocal, hfar⟩ := linkChecks_hold.mp h
  constructor
  · intro name hname
    rcases hasColumnAt_iff.mp (hlocal name hname) with hcol | ⟨-, hnew⟩
    · exact .inl hcol
    · exact .inr hnew
  · intro j' foreign' hres' hj' name hname
    obtain rfl := Option.some.inj (hres.symm.trans hres')
    obtain rfl := Option.some.inj (hj.symm.trans hj')
    exact hasColumnAt_iff.mp (hfar name hname)

namespace SoundKeys

theorem target (h : d.SoundKeys i t) (hk : k ∈ t.foreignKeys) : ∃ foreign, d.target? k = some foreign := by
  obtain ⟨foreign, hforeign⟩ := h.targets k hk
  exact ⟨foreign, pointsAt_iff_target?.mp hforeign⟩

/-- A sound key passes the checks of linking. -/
theorem linkChecks (h : d.SoundKeys i t) (hk : k ∈ t.foreignKeys) :
    ∀ c ∈ d.linkChecks i t (d.completedKey k), c.holds = true := by
  cases himp : k.isImplicit with
  | true => exact linkChecks_completedKey hk himp (h.target hk)
  | false =>
    obtain ⟨foreign, hforeign⟩ := h.target hk
    obtain ⟨j, hres, hj⟩ := target?_eq_some.mp hforeign
    rw [completedKey_of_explicit himp]
    refine linkChecks_hold.mpr ⟨j, foreign, hres, hj, fun name hname => ?_, fun name hname => ?_⟩
    · refine hasColumnAt_iff.mpr ?_
      rcases h.localColumns k hk himp name hname with hcol | hnew
      · exact .inl hcol
      · exact .inr ⟨Nat.le_refl i, hnew⟩
    · exact hasColumnAt_iff.mpr (h.foreignColumns k hk himp j foreign hres hj name hname)

end SoundKeys

/-- The checks of a table hold when its keys are sound. -/
theorem tableChecks_hold : (∀ c ∈ d.tableChecks i t, c.holds = true) ↔ d.SoundKeys i t := by
  have hpk : ∀ foreign : Table, foreign.hasPrimaryKey = true ↔ ∃ c ∈ foreign.columns, c.primaryKey = true :=
    fun foreign => List.any_eq_true
  have hlinks : (∀ c ∈ (t.foreignKeys.map d.completedKey).flatMap (d.linkChecks i t), c.holds = true) ↔
      ∀ k ∈ t.foreignKeys, ∀ c ∈ d.linkChecks i t (d.completedKey k), c.holds = true := by
    rw [List.forall_mem_flatMap, List.forall_mem_map]
  rw [tableChecks, List.forall_mem_append, implicitChecks_hold, hlinks]
  constructor
  · rintro ⟨⟨himplicit, hdistinct, hfresh⟩, hlink⟩
    refine ⟨fun k hk => ?_, fun k hk himp foreign hforeign => ?_, hdistinct, fun name hname hcol => ?_,
      fun k hk hexp => (columns_of_linkChecks hexp (hlink k hk)).1,
      fun k hk hexp => (columns_of_linkChecks hexp (hlink k hk)).2⟩
    · obtain ⟨j, foreign, hres, hj, -⟩ := linkChecks_hold.mp (hlink k hk)
      rw [resolve?_completedKey] at hres
      exact ⟨foreign, pointsAt_iff_target?.mpr (target?_eq_some.mpr ⟨j, hres, hj⟩)⟩
    · obtain ⟨foreign', hforeign', hhas⟩ := himplicit k (List.mem_filter.mpr ⟨hk, himp⟩)
      rw [pointsAt_iff_target?, hforeign'] at hforeign
      cases hforeign
      exact (hpk _).mp hhas
    · obtain ⟨c, hc, rfl⟩ := hcol
      exact hfresh c.name hname (List.mem_map.mpr ⟨c, hc, rfl⟩)
  · intro h
    refine ⟨⟨fun k hk => ?_, h.distinct, fun name hname hmem => ?_⟩, fun k hk => h.linkChecks hk⟩
    · obtain ⟨hk, himp⟩ := List.mem_filter.mp hk
      obtain ⟨foreign, hforeign⟩ := h.target hk
      exact ⟨foreign, hforeign, (hpk _).mpr (h.primaryKeys k hk himp foreign (pointsAt_iff_target?.mpr hforeign))⟩
    · obtain ⟨c, hc, hname'⟩ := List.mem_map.mp hmem
      exact h.fresh name hname ⟨c, hc, hname'⟩

/-- No key of the database has a fault when the keys of each table are sound. -/
theorem firstFault?_keyChecks_eq_none :
    firstFault? d.keyChecks = none ↔ ∀ (i : Nat) t, d.tables[i]? = some t → d.SoundKeys i t := by
  rw [firstFault?_eq_none, keyChecks, List.forall_mem_flatMap]
  constructor
  · intro h i t ht
    have hi := h i (List.mem_range.mpr (List.getElem?_eq_some_iff.mp ht).1)
    rw [ht] at hi
    exact tableChecks_hold.mp hi
  · intro h i hi
    have ht := List.getElem?_eq_getElem (List.mem_range.mp hi)
    rw [ht]
    exact tableChecks_hold.mpr (h i _ ht)

/-! ### Finalization -/

/-- Nothing is indexed heavily. -/
structure LightlyIndexed (d : Database) : Prop where
  own : d.settings.heavyIndexing = false
  inTables : ∀ t ∈ d.tables, t.settings.heavyIndexing ≠ some true

theorem LightlyIndexed.prepare (h : d.LightlyIndexed) (ht : t ∈ d.tables) : (t.prepare d).isHeavyIndexing = false := by
  have hown := h.inTables t ht
  show ((t.settings.orElse d.settings).heavyIndexing).getD false = false
  cases hb : t.settings.heavyIndexing with
  | none => simp [OwnSettings.orElse, hb, h.own]
  | some b =>
    rw [hb] at hown
    cases b with
    | true => exact absurd rfl hown
    | false => simp [OwnSettings.orElse, hb]

theorem meets_finalize {kind : PlatformKind} (hd : d.DistinctNames) (hq : d.Quiet) (hh : d.LightlyIndexed)
    (hl : 0 < limit) :
    (finalize limit r (.plain kind)).Meets (KeyFault.error d) d d.keyChecks := by
  have herror : KeyFault.error (prepareTables d) = KeyFault.error d := by
    have hnames : (prepareTables d).tableNames = d.tableNames := List.map_map
    funext f
    cases f with
    | noTarget owner k => rw [KeyFault.error, hnames, KeyFault.error]; rfl
    | _ => rfl
  have htables : (finalizeTables (.plain kind)).Meets (KeyFault.error (prepareTables d)) (prepareTables d)
      (prepareTables d).keyChecks := by
    refine meets_finalizeTables (fun t ht => ?_) fun t ht => ?_
    · obtain ⟨u, hu, rfl⟩ := List.mem_map.mp ht
      exact hh.prepare hu
    · exact ((prepareTables_distinctNames hd).inTables t ht).foreignKeys
  rw [herror, keyChecks_prepareTables] at htables
  refine .after (hq.settle hl) (.after (a := ()) (Change.gives_modify.mpr rfl) (htables.before fun _ e _ => ?_))
  exact ⟨[], e, by simp⟩

/-- Without pending behaviors and heavy indices, on a platform without rules of its own, finalization succeeds
    exactly where the keys of each table are sound. Where it fails, it does so with the error of the first
    fault among them in the order of `keyChecks`: a constraint is broken when an implicit key cannot get its
    columns, and a reference leads nowhere otherwise. -/
theorem finalize_iff_soundKeys {kind : PlatformKind} (hd : d.DistinctNames) (hq : d.Quiet) (hh : d.LightlyIndexed)
    (hl : 0 < limit) :
    ((∃ ran e, (finalize limit r (.plain kind)).Gives d ran e) ↔
        ∀ (i : Nat) t, d.tables[i]? = some t → d.SoundKeys i t) ∧
      ∀ e, (finalize limit r (.plain kind) d).result = .error e ↔
        ∃ f, firstFault? d.keyChecks = some f ∧ e = f.error d ∧
          ((f.isConstraint = true ∧ ∃ c, e = .constraint c) ∨ (f.isConstraint = false ∧ ∃ c, e = .reference c)) := by
  have hmeets : (finalize limit r (.plain kind)).Meets (KeyFault.error d) d d.keyChecks := meets_finalize hd hq hh hl
  refine ⟨hmeets.gives_iff.trans firstFault?_keyChecks_eq_none, fun e => hmeets.error_iff.trans ?_⟩
  constructor
  · rintro ⟨f, hf, rfl⟩
    refine ⟨f, hf, rfl, ?_⟩
    cases f with
    | noPrimaryKey k foreign => exact .inl ⟨rfl, _, rfl⟩
    | columnTaken owner k column => exact .inl ⟨rfl, _, rfl⟩
    | noTarget owner k => exact .inr ⟨rfl, _, rfl⟩
    | noLocalColumn owner k column => exact .inr ⟨rfl, _, rfl⟩
    | noForeignColumn k foreign column => exact .inr ⟨rfl, _, rfl⟩
  · rintro ⟨f, hf, he, -⟩
    exact ⟨f, hf, he⟩

/-- A boat has two implicit keys, whose names differ in the case of their first letter: both should get the
    column `homeId`. The buoy before it names a column that the boat never gets. -/
def marina : Database where
  name := "marina"
  tables :=
    [{ name := "port"
       columns := [{ name := "id", domain := { type := .integer }, primaryKey := true }] },
     { name := "boat"
       foreignKeys := [{ name := "home", target := "port", table := "boat" },
         { name := "Home", target := "port", table := "boat" }] },
     { name := "buoy"
       foreignKeys := [{ name := "chain", target := "boat", references := [⟨"boatId", "id"⟩], table := "buoy" }] }]

/-- The cargo succeeds, in which the label names a column that the box before it gets for its crate. The marina
    fails for the second key of the boat, before the buoy is linked. -/
theorem finalize_iff_soundKeys_marina :
    (∀ (i : Nat) t, cargo.tables[i]? = some t → cargo.SoundKeys i t) ∧
      (¬∀ (i : Nat) t, marina.tables[i]? = some t → marina.SoundKeys i t) ∧
      (finalize settleLimit .builtin (.plain .generic) marina).result =
        .error (.constraint (.synthesizedColumnExists "homeId" "Home" "boat")) := by
  have hcargo : cargo.LightlyIndexed := ⟨rfl, by decide⟩
  have hmarina : marina.LightlyIndexed := ⟨rfl, by decide⟩
  have hsound : (∃ ran e, (finalize settleLimit .builtin (.plain .generic)).Gives cargo ran e) ↔
      ∀ (i : Nat) t, cargo.tables[i]? = some t → cargo.SoundKeys i t :=
    (finalize_iff_soundKeys (by decide) ⟨rfl, rfl⟩ hcargo (by decide)).1
  have hgives : (∃ ran e, (finalize settleLimit .builtin (.plain .generic)).Gives marina ran e) ↔
      ∀ (i : Nat) t, marina.tables[i]? = some t → marina.SoundKeys i t :=
    (finalize_iff_soundKeys (by decide) ⟨rfl, rfl⟩ hmarina (by decide)).1
  have hfails : (finalize settleLimit .builtin (.plain .generic) marina).result =
      .error (.constraint (.synthesizedColumnExists "homeId" "Home" "boat")) :=
    ((finalize_iff_soundKeys (by decide) ⟨rfl, rfl⟩ hmarina (by decide)).2 _).mpr
      ⟨.columnTaken "boat" { name := "Home", target := "port", table := "boat" } "homeId", by decide, rfl,
        .inl ⟨rfl, _, rfl⟩⟩
  refine ⟨hsound.mp ⟨[], finalizedCargo, rfl, rfl⟩, fun hall => ?_, hfails⟩
  obtain ⟨ran, e, hok, -⟩ := hgives.mpr hall
  rw [hfails] at hok
  cases hok

end Schemata.Database
