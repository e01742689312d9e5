import Schemata.Proofs.Reorder

/-!
# Finalizing in another order

For a database without pending behaviors, finalization gives the same tables in every order of the
tables in which it succeeds. Whether it succeeds depends on the order in one way only: a key may name a
column that its target has not declared and gets for an implicit key of its own, and such a column is
found from the turn of the target on.
-/

namespace Schemata.Database
variable {d d' e e' : Database} {r : Registry} {p : Platform} {limit : Nat} {ran ran' : List HookRun} {t : Table}
  {k : ForeignKey} {w : Unit}

theorem Quiet.gives_finalize (h : d.Quiet) : (finalize limit r p).Gives d ran e ↔
    0 < limit ∧ ran = [] ∧ (finalizeTables p).Gives (prepareTables d) () e := by
  rw [Database.gives_finalize]
  constructor
  · rintro ⟨m, hm, he⟩
    have hl := limit_pos hm
    obtain ⟨rfl, rfl⟩ := (h.settle hl).unique hm
    exact ⟨hl, rfl, he⟩
  · rintro ⟨hl, rfl, he⟩
    exact ⟨d, h.settle hl, he⟩

/-! ### The same tables -/

/-- Every order in which finalization succeeds leads to the same tables, but for the order of their
    back edges. -/
theorem finalize_order_independent (hd : d.DistinctNames) (hq : (d.tables.map (·.qualifiedName)).Nodup) (hquiet : d.Quiet)
    (ho : d.Reorders d') (h : (finalize limit r p).Gives d ran e) (h' : (finalize limit r p).Gives d' ran' e') :
    { e' with tables := [] } = { e with tables := [] } ∧ e'.tableNames.Perm e.tableNames ∧
      ∀ name t, e.table? name = some t → ∃ u, e'.table? name = some u ∧ t.Agrees u := by
  obtain ⟨-, -, he⟩ := hquiet.gives_finalize.mp h
  obtain ⟨-, -, he'⟩ := (ho.quiet hquiet).gives_finalize.mp h'
  have hg := grows_finalizeTables he
  have hg' := grows_finalizeTables he'
  refine ⟨hg'.rest.trans (ho.rest.trans hg.rest.symm), ?_, fun name t ht => ?_⟩
  · rw [hg'.tableNames, hg.tableNames]
    exact ho.prepareTables.tableNames
  · have hn' : e'.tableNames.Nodup :=
      hg'.tableNames ▸ (prepareTables_distinctNames (ho.distinctNames hd)).tables
    obtain ⟨u, hu, hname, hagrees⟩ := agrees_reordered hd hq ho he he' (List.mem_of_find?_eq_some ht)
    have htname : t.name = name := by simpa using List.find?_some ht
    exact ⟨u, (find?_eq_some_iff_of_nodup hn').mpr ⟨hu, hname.trans htname⟩, hagrees⟩

/-- A ship has a captain by an implicit key and a sister by an explicit one, and lies at berths. -/
def harbor : Database where
  name := "harbor"
  tables :=
    [{ name := "ship"
       columns := [{ name := "id", domain := { type := .integer }, primaryKey := true }, { name := "sister" }]
       foreignKeys :=
         [{ name := "captain", target := "sailor", table := "ship" },
          { name := "sister", target := "ship", references := [⟨"sister", "id"⟩], table := "ship" }] },
     { name := "berth"
       columns := [{ name := "number", domain := { type := .integer }, primaryKey := true }]
       foreignKeys := [{ name := "guest", target := "ship", table := "berth" }] },
     { name := "sailor"
       columns := [{ name := "id", domain := { type := .integer }, primaryKey := true, autoIncrement := true }] }]

/-- The tables of the harbor from the last one to the first. -/
def harborReversed : Database :=
  { harbor with tables := harbor.tables.reverse }

def finalizedHarbor : Database :=
  (finalize settleLimit .builtin (.mysql "InnoDB") harbor).state

def finalizedHarborReversed : Database :=
  (finalize settleLimit .builtin (.mysql "InnoDB") harborReversed).state

theorem harbor_reorders : harbor.Reorders harborReversed :=
  ⟨rfl, List.reverse_perm _⟩

theorem finalize_order_independent_harbor :
    harbor.DistinctNames ∧ (harbor.tables.map (·.qualifiedName)).Nodup ∧ harbor.Quiet ∧
      harbor.Reorders harborReversed ∧
      (finalize settleLimit .builtin (.mysql "InnoDB")).Gives harbor [] finalizedHarbor ∧
      (finalize settleLimit .builtin (.mysql "InnoDB")).Gives harborReversed [] finalizedHarborReversed ∧
      ∃ t u, finalizedHarbor.table? "ship" = some t ∧ finalizedHarborReversed.table? "ship" = some u ∧ t.Agrees u := by
  have hd : harbor.DistinctNames := by decide
  have hq : (harbor.tables.map (·.qualifiedName)).Nodup := by decide
  have hquiet : harbor.Quiet := ⟨rfl, rfl⟩
  have h : (finalize settleLimit .builtin (.mysql "InnoDB")).Gives harbor [] finalizedHarbor := ⟨rfl, rfl⟩
  have h' : (finalize settleLimit .builtin (.mysql "InnoDB")).Gives harborReversed [] finalizedHarborReversed := ⟨rfl, rfl⟩
  obtain ⟨u, hu, hagrees⟩ := (finalize_order_independent hd hq hquiet harbor_reorders h h').2.2 "ship" _ rfl
  exact ⟨hd, hq, hquiet, harbor_reorders, h, h', _, u, rfl, hu, hagrees⟩

/-! ### Which orders succeed -/

/-- Table `t` comes before `u`, or is `u`. -/
def NotAfter (d : Database) (t u : Table) : Prop :=
  ∃ i j : Nat, i ≤ j ∧ d.tables[i]? = some t ∧ d.tables[j]? = some u

theorem finalizeTables_reordered_iff (hd : d.DistinctNames) (hq : (d.tables.map (·.qualifiedName)).Nodup)
    (ho : d.Reorders d') (h : (finalizeTables p).Gives d w e) : (∃ e', (finalizeTables p).Gives d' () e') ↔
      ∀ t ∈ d.tables, ∀ k ∈ t.foreignKeys, ∀ foreign, d.target? k = some foreign →
        (∃ name ∈ k.foreignColumns, foreign.hasColumn name = false) → d'.NotAfter foreign t := by
  have hd' := ho.distinctNames hd
  have hq' : (d'.tables.map (·.qualifiedName)).Nodup := (ho.tables.map Table.qualifiedName).nodup_iff.mpr hq
  constructor
  · rintro ⟨e', h'⟩ t ht k hk foreign hforeign ⟨name, hname, hcol⟩
    obtain ⟨j, hj⟩ := List.getElem?_of_mem (ho.tables.mem_iff.mpr ht)
    obtain ⟨u, hu, hfinds⟩ := finalizeTables_iff.mp ⟨e', h'⟩ j t hj
    -- A key that names foreign columns is explicit, and `u` has it as it is.
    have hexplicit : k.isImplicit = false := by
      have hne := List.map_eq_nil_iff.not.mp (List.ne_nil_of_mem hname)
      simpa [ForeignKey.isImplicit] using hne
    have hku : k ∈ u.foreignKeys := by
      rw [hu.foreignKeys (hd.inTables t ht).foreignKeys]
      exact List.mem_map.mpr ⟨k, hk, completedKey_of_explicit hexplicit⟩
    obtain ⟨i, foreign', hres, hi, -, hfor⟩ := hfinds k hku
    have htarget := target?_eq_some.mpr ⟨i, hres, hi⟩
    rw [ho.target? hd.tables hq, hforeign] at htarget
    cases htarget
    rcases hfor name hname with hdeclared | ⟨hle, -⟩
    · rw [hcol] at hdeclared
      cases hdeclared
    · exact ⟨i, j, hle, hi, hj⟩
  · intro hbefore
    refine finalizeTables_iff.mpr fun j t hj => ?_
    have ht := ho.tables.mem_iff.mp (List.mem_of_getElem? hj)
    obtain ⟨i, hi⟩ := List.getElem?_of_mem ht
    obtain ⟨u, hu, hfinds⟩ := finalizeTables_iff.mp ⟨e, h⟩ i t hi
    refine ⟨u, hu.reordered ho hd.tables hq, fun k hk => ?_⟩
    obtain ⟨a, foreign, hres, ha, hloc, hfor⟩ := hfinds k hk
    have htarget := target?_eq_some.mpr ⟨a, hres, ha⟩
    obtain ⟨b, hres', hb⟩ := target?_eq_some.mp ((ho.target? hd.tables hq k).trans htarget)
    refine ⟨b, foreign, hres', hb, hloc, fun name hname => ?_⟩
    rcases hfor name hname with hdeclared | ⟨-, v, hv, hcol⟩
    · exact Or.inl hdeclared
    cases hdeclared : foreign.hasColumn name with
    | true => exact Or.inl rfl
    | false =>
      rw [hu.foreignKeys (hd.inTables t ht).foreignKeys] at hk
      obtain ⟨l, hl, rfl⟩ := List.mem_map.mp hk
      cases himp : l.isImplicit with
      | true =>
        -- Implicit keys name declared columns only.
        obtain ⟨foreign', hforeign', hdeclared'⟩ := hasColumn_of_completedKey himp hname
        rw [target?_completedKey, hforeign'] at htarget
        cases htarget
        rw [hdeclared] at hdeclared'
        cases hdeclared'
      | false =>
        rw [completedKey_of_explicit himp] at hname htarget
        obtain ⟨b', j', hle, hb', hj'⟩ := hbefore t ht l hl foreign htarget ⟨name, hname, hdeclared⟩
        rw [getElem?_unique hd'.tables hb hb', getElem?_unique hd'.tables hj hj'] at hle
        exact Or.inr ⟨hle, v, hv.reordered ho hd.tables hq, hcol⟩

theorem resolve?_prepareTables (d : Database) (k : ForeignKey) : (prepareTables d).resolve? k = d.resolve? k := by
  have hn : (prepareTables d).tableNames = d.tableNames := List.map_map
  unfold resolve?
  simp only [position?_congr hn (prepareTables_qualifiedNames d)]

theorem target?_prepareTables (d : Database) (k : ForeignKey) :
    (prepareTables d).target? k = (d.target? k).map (Table.prepare d) := by
  rw [target?, target?, resolve?_prepareTables, Option.map_bind]
  congr 1
  funext pos
  exact List.getElem?_map

theorem hasColumn_prepare (d : Database) (t : Table) (name : String) :
    (t.prepare d).hasColumn name = t.hasColumn name := by
  show t.bare.hasColumn name = _
  rw [Table.bare_hasColumn]

theorem notAfter_prepareTables (hd : d.tableNames.Nodup) {t u : Table} (ht : t ∈ d.tables) (hu : u ∈ d.tables) :
    (prepareTables d).NotAfter (t.prepare d) (u.prepare d) ↔ d.NotAfter t u := by
  -- A table is known by its name, which preparing keeps.
  have hat : ∀ {v : Table}, v ∈ d.tables → ∀ i : Nat,
      (prepareTables d).tables[i]? = some (v.prepare d) ↔ d.tables[i]? = some v := fun {v} hv i => by
    rw [prepareTables, List.getElem?_map]
    constructor
    · intro h
      obtain ⟨v', hi, heq⟩ := Option.map_eq_some_iff.mp h
      have hname : v'.name = v.name := by
        have := congrArg Table.name heq
        exact this
      rw [hi, List.inj_on_of_nodup_map hd (List.mem_of_getElem? hi) hv hname]
    · intro h
      rw [h, Option.map_some]
  unfold NotAfter
  simp only [hat ht, hat hu]

/-- Where one order succeeds, another one does too when no key comes before its target and names a
    column there that is not declared. -/
theorem finalize_reordered_iff (hd : d.DistinctNames) (hq : (d.tables.map (·.qualifiedName)).Nodup) (hquiet : d.Quiet)
    (ho : d.Reorders d') (h : (finalize limit r p).Gives d ran e) :
    (∃ ran' e', (finalize limit r p).Gives d' ran' e') ↔
      ∀ t ∈ d.tables, ∀ k ∈ t.foreignKeys, ∀ foreign, d.PointsAt k foreign →
        (∃ name ∈ k.foreignColumns, foreign.hasColumn name = false) → d'.NotAfter foreign t := by
  obtain ⟨hl, -, he⟩ := hquiet.gives_finalize.mp h
  have hruns : (∃ ran' e', (finalize limit r p).Gives d' ran' e') ↔
      ∃ e', (finalizeTables p).Gives (prepareTables d') () e' := by
    simp only [(ho.quiet hquiet).gives_finalize]
    constructor
    · rintro ⟨_, e', -, -, he'⟩
      exact ⟨e', he'⟩
    · rintro ⟨e', he'⟩
      exact ⟨[], e', hl, rfl, he'⟩
  have hq' : ((prepareTables d).tables.map (·.qualifiedName)).Nodup := prepareTables_qualifiedNames d ▸ hq
  have hprepare : Table.prepare d' = Table.prepare d := by
    have := congrArg Table.prepare ho.rest
    exact this
  have hpoints : ∀ k foreign, d.PointsAt k foreign ↔ d.target? k = some foreign := fun k foreign =>
    pointsAt_iff.trans target?_eq_some.symm
  have hafter : ∀ {t u : Table}, t ∈ d.tables → u ∈ d.tables →
      ((prepareTables d').NotAfter (t.prepare d) (u.prepare d) ↔ d'.NotAfter t u) := fun {t u} ht hu => by
    rw [← hprepare]
    exact notAfter_prepareTables (ho.distinctNames hd).tables (ho.tables.mem_iff.mpr ht) (ho.tables.mem_iff.mpr hu)
  rw [hruns, finalizeTables_reordered_iff (prepareTables_distinctNames hd) hq' ho.prepareTables he]
  constructor
  · rintro hall t ht k hk foreign hforeign ⟨name, hname, hcol⟩
    have htarget := (hpoints k foreign).mp hforeign
    have hmem : foreign ∈ d.tables := by
      obtain ⟨pos, -, hpos⟩ := target?_eq_some.mp htarget
      exact List.mem_of_getElem? hpos
    refine (hafter hmem ht).mp (hall (t.prepare d) (List.mem_map.mpr ⟨t, ht, rfl⟩) k hk (foreign.prepare d) ?_ ?_)
    · rw [target?_prepareTables, htarget, Option.map_some]
    · exact ⟨name, hname, (hasColumn_prepare d foreign name).trans hcol⟩
  · rintro hall t₀ ht₀ k hk foreign₀ hforeign₀ ⟨name, hname, hcol⟩
    obtain ⟨t, ht, rfl⟩ := List.mem_map.mp ht₀
    rw [target?_prepareTables] at hforeign₀
    obtain ⟨foreign, hforeign, rfl⟩ := Option.map_eq_some_iff.mp hforeign₀
    have hmem : foreign ∈ d.tables := by
      obtain ⟨pos, -, hpos⟩ := target?_eq_some.mp hforeign
      exact List.mem_of_getElem? hpos
    rw [hasColumn_prepare] at hcol
    exact (hafter hmem ht).mpr (hall t ht k hk foreign ((hpoints k foreign).mpr hforeign) ⟨name, hname, hcol⟩)

/-- The label of a box refers to the column that the box gets for its crate. -/
def cargo : Database where
  name := "cargo"
  tables :=
    [{ name := "box"
       columns := [{ name := "id", domain := { type := .integer }, primaryKey := true }]
       foreignKeys := [{ name := "holder", target := "crate", table := "box" }] },
     { name := "crate"
       columns := [{ name := "id", domain := { type := .integer }, primaryKey := true }] },
     { name := "label"
       columns := [{ name := "id", domain := { type := .integer }, primaryKey := true }]
       foreignKeys := [{ name := "place", target := "box", references := [⟨"id", "holderId"⟩], table := "label" }] }]

/-- The label before the box. -/
def cargoReversed : Database :=
  { cargo with tables := cargo.tables.reverse }

def finalizedCargo : Database :=
  (finalize settleLimit .builtin (.plain .generic) cargo).state

theorem cargo_reorders : cargo.Reorders cargoReversed :=
  ⟨rfl, List.reverse_perm _⟩

theorem finalize_reordered_iff_cargo :
    cargo.DistinctNames ∧ (cargo.tables.map (·.qualifiedName)).Nodup ∧ cargo.Quiet ∧ cargo.Reorders cargoReversed ∧
      (finalize settleLimit .builtin (.plain .generic)).Gives cargo [] finalizedCargo ∧
      ((∃ ran' e', (finalize settleLimit .builtin (.plain .generic)).Gives cargoReversed ran' e') ↔
        ∀ t ∈ cargo.tables, ∀ k ∈ t.foreignKeys, ∀ foreign, cargo.PointsAt k foreign →
          (∃ name ∈ k.foreignColumns, foreign.hasColumn name = false) → cargoReversed.NotAfter foreign t) := by
  have hd : cargo.DistinctNames := by decide
  have hq : (cargo.tables.map (·.qualifiedName)).Nodup := by decide
  have hquiet : cargo.Quiet := ⟨rfl, rfl⟩
  have h : (finalize settleLimit .builtin (.plain .generic)).Gives cargo [] finalizedCargo := ⟨rfl, rfl⟩
  exact ⟨hd, hq, hquiet, cargo_reorders, h, finalize_reordered_iff hd hq hquiet cargo_reorders h⟩

/-- In one order the box has its column before the label is linked, in the other order it has not. -/
theorem order_decides_success :
    cargo.DistinctNames ∧ (cargo.tables.map (·.qualifiedName)).Nodup ∧ cargo.Quiet ∧ cargo.OwnsKeys ∧
      cargo.Reorders cargoReversed ∧
      (finalize settleLimit .builtin (.plain .generic)).Gives cargo [] finalizedCargo ∧
      (finalize settleLimit .builtin (.plain .generic) cargoReversed).result =
        .error (.reference (.unknownForeignColumn "place" "label" "box" "holderId")) :=
  ⟨by decide, by decide, ⟨rfl, rfl⟩, by decide, cargo_reorders, ⟨rfl, rfl⟩, rfl⟩

end Schemata.Database
