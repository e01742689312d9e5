import Schemata.Proofs.Finalize

/-!
# Indices for foreign keys

On InnoDB the local columns of every key come first in the primary key, an index or a unique constraint of
a finalized table. The indices that see to this are told from the table as it is when its keys are linked,
but each is added only if there is none over the same columns by then, so keys with equal columns share
one (`keys_indexed`).
-/

namespace Schemata

/-! ### The engine of a table -/

/-- The table is kept by InnoDB: so says the first engine that is given by the table, as `Engine` or as
    `Type`, or by the database in the same way, or else by the platform. -/
def Platform.OnInnoDB (p : Platform) (d : Database) (t : Table) : Prop :=
  ∃ tableType, p = .mysql tableType ∧
    Text.sameIgnoringAsciiCase
      (([Vendor.parameter? t.vendor "mysql" "Engine", Vendor.parameter? t.vendor "mysql" "Type",
        Vendor.parameter? d.vendor "mysql" "Engine", Vendor.parameter? d.vendor "mysql" "Type"].findSome? id).getD
          tableType) "InnoDB" = true

theorem storageEngine_eq (tableType : String) (d : Database) (t : Table) :
    storageEngine tableType d t =
      ([Vendor.parameter? t.vendor "mysql" "Engine", Vendor.parameter? t.vendor "mysql" "Type",
        Vendor.parameter? d.vendor "mysql" "Engine", Vendor.parameter? d.vendor "mysql" "Type"].findSome? id).getD
          tableType := by
  simp only [storageEngine, engine?, List.findSome?_cons, id]
  cases Vendor.parameter? t.vendor "mysql" "Engine" <;> cases Vendor.parameter? t.vendor "mysql" "Type" <;>
    cases Vendor.parameter? d.vendor "mysql" "Engine" <;> cases Vendor.parameter? d.vendor "mysql" "Type" <;> rfl

theorem Platform.onInnoDB_iff {p : Platform} {d : Database} {t : Table} : p.OnInnoDB d t ↔ p.needsKeyIndex d t = true := by
  cases p with
  | plain kind => simp [OnInnoDB, needsKeyIndex]
  | mysql tableType => simp [OnInnoDB, needsKeyIndex, storageEngine_eq]

namespace Table
variable {t u : Table} {k : ForeignKey} {names : List String} {i : Index}

/-- These are the first columns of the primary key, of an index or of a unique constraint. -/
def Leads (t : Table) (names : List String) : Prop :=
  names <+: t.primaryKeyNames ∨ (∃ i ∈ t.indices, names <+: i.columnNames) ∨ ∃ i ∈ t.uniques, names <+: i.columnNames

theorem leads_iff (h : names ≠ []) : t.Leads names ↔ t.coversColumns names = true := by
  have hcovers : ∀ i : Index, i.covers names = true ↔ names <+: i.columnNames := fun i => by
    simp [Index.covers, h]
  simp only [Leads, coversColumns, Bool.or_eq_true, List.any_eq_true, hcovers, Index.columnNames_ofNames, or_assoc]

/-- Each of these indices is over the local columns of a key that were covered by nothing in the table, and is
    named after them; no two are over the same columns. -/
structure KeyIndices (t : Table) (new : List Index) : Prop where
  ofKeys : ∀ i ∈ new, ∃ k ∈ t.foreignKeys, ¬t.Leads k.localColumns ∧ i = t.indexOver "fi" k.localColumns
  distinct : (new.map (·.columnNames)).Nodup

end Table

namespace Database
variable {d e m s v : Database} {r : Registry} {p : Platform} {limit pos : Nat} {ran : List HookRun} {t u : Table} {w : Unit}

/-! ### The step of the platform -/

theorem onInnoDB_congr (hd : e.vendor = d.vendor) (ht : u.vendor = t.vendor) : p.OnInnoDB e u ↔ p.OnInnoDB d t := by
  rw [Platform.onInnoDB_iff, Platform.onInnoDB_iff, Table.needsKeyIndex_congr hd ht]

theorem addKeyIndices_new (ht : d.tables[pos]? = some t) (h : (addKeyIndices p pos).Gives d w e) :
    ∃ new, e = { d with tables := d.tables.set pos { t with indices := t.indices ++ new } } ∧ t.KeyIndices new ∧
      (¬p.OnInnoDB d t → new = []) := by
  obtain ⟨u, hu, rfl⟩ := (addKeyIndices_eq ht).mp h
  obtain ⟨-, hidx, -⟩ := Table.gives_addMissingIndices id (fun _ _ _ => Table.gives_addKeyIndex.mp) hu
  obtain ⟨new, hnew, hdistinct, hall⟩ :=
    Table.gives_addMissingIndices_new id (fun _ _ _ => Table.gives_addKeyIndex.mp) hu
  have hwanted : ∀ i ∈ new, p.OnInnoDB d t ∧
      ∃ k ∈ t.foreignKeys, ¬t.Leads k.localColumns ∧ i = t.indexOver "fi" k.localColumns := fun i hi => by
    obtain ⟨-, j, hj, rfl⟩ := hall i hi
    rw [Platform.extraIndices] at hj
    split at hj
    · rename_i hneeds
      obtain ⟨k, hk, hkj⟩ := List.mem_filterMap.mp hj
      obtain ⟨hne, hfree, rfl⟩ := Table.keyIndex?_eq_some.mp hkj
      refine ⟨Platform.onInnoDB_iff.mpr hneeds, k, hk, ?_, rfl⟩
      rw [Table.leads_iff hne, hfree]
      exact Bool.false_ne_true
    · cases hj
  refine ⟨new, by rw [hidx, hnew], ⟨fun i hi => (hwanted i hi).2, hdistinct⟩, fun hother => ?_⟩
  exact List.eq_nil_iff_forall_not_mem.mpr fun i hi => hother (hwanted i hi).1

/-! ### The step within a run -/

/-- A run over the tables, up to the indices of the platform for the table at a position. -/
def beforeKeyIndices (p : Platform) (pos : Nat) : Edit Database Unit := do
  Change.forEach (finalizeTable p) (List.range pos)
  editAt pos Table.addHeavyIndices
  editAt pos Table.dropUnusedIdMethod
  completeKeys pos
  linkKeys pos

/-- The rest of a run over `n` tables. -/
def afterKeyIndices (p : Platform) (pos n : Nat) : Edit Database Unit := do
  editAt pos Table.warnWithoutKey
  Change.forEach (finalizeTable p) (List.range' (pos + 1) (n - (pos + 1)))

/-- A run over the tables of `d` that ends in `e` has made the table at a position into `t` when it comes to
    the indices of the platform, and then adds `new` to it. -/
def AddsIndices (p : Platform) (d : Database) (pos : Nat) (t : Table) (new : List Index) (e : Database) : Prop :=
  ∃ s, (beforeKeyIndices p pos).Gives d () s ∧ s.tables[pos]? = some t ∧
    (addKeyIndices p pos).Gives s () { s with tables := s.tables.set pos { t with indices := t.indices ++ new } } ∧
    (afterKeyIndices p pos d.tables.length).Gives
      { s with tables := s.tables.set pos { t with indices := t.indices ++ new } } () e

theorem range_split {pos n : Nat} (h : pos < n) :
    List.range n = List.range pos ++ pos :: List.range' (pos + 1) (n - (pos + 1)) := by
  have hn : n = pos + (n - (pos + 1) + 1) := by omega
  conv_lhs => rw [hn]
  rw [List.range_eq_range', List.range_eq_range', ← List.range'_append_1, Nat.zero_add, List.range'_succ]

theorem gives_finalizeTables_split (hpos : pos < d.tables.length) (h : (finalizeTables p).Gives d w e) :
    ∃ s v, (beforeKeyIndices p pos).Gives d () s ∧ (addKeyIndices p pos).Gives s () v ∧
      (afterKeyIndices p pos d.tables.length).Gives v () e := by
  simp only [finalizeTables, Change.gives_bind, Change.gives_get] at h
  obtain ⟨_, _, ⟨rfl, rfl⟩, h⟩ := h
  rw [range_split hpos, Change.gives_forEach_append] at h
  obtain ⟨d₀, hbefore, h⟩ := h
  obtain ⟨d₆, hpos, hafter⟩ := Change.gives_forEach_cons.mp h
  simp only [finalizeTable, Change.gives_bind] at hpos
  obtain ⟨_, d₁, hheavy, _, d₂, hdrop, _, d₃, hkeys, _, s, hlink, _, v, hidx, hwarn⟩ := hpos
  refine ⟨s, v, ?_, hidx, ?_⟩
  · simp only [beforeKeyIndices, Change.gives_bind]
    exact ⟨_, d₀, hbefore, _, d₁, hheavy, _, d₂, hdrop, _, d₃, hkeys, hlink⟩
  · simp only [afterKeyIndices, Change.gives_bind]
    exact ⟨_, d₆, hwarn, hafter⟩

/-- The rest of a run changes the table at the position in its back edges only. -/
theorem afterKeyIndices_keeps {n : Nat} (h : (afterKeyIndices p pos n).Gives v w e) :
    v.Grows e ∧ e.tables[pos]?.map Table.clearReferrers = v.tables[pos]?.map Table.clearReferrers := by
  simp only [afterKeyIndices, Change.gives_bind, gives_editAt_warnWithoutKey] at h
  obtain ⟨_, _, rfl, h⟩ := h
  refine h.forEach (R := fun d e => d.Grows e ∧ e.tables[pos]?.map Table.clearReferrers =
    d.tables[pos]?.map Table.clearReferrers) (fun d => ⟨.refl d, rfl⟩) (fun h h' => ⟨h.1.trans h'.1, h'.2.trans h.2⟩) ?_
  intro i hi d e hf
  have hg := growsAt_finalizeTable hf
  have hlater : pos < i := (List.mem_range'_1.mp hi).1
  exact ⟨hg.grows, hg.others pos (Nat.ne_of_lt hlater)⟩

/-- What the platform adds to a table within a run, and that this is what its indices end with. -/
theorem gives_finalizeTables_adds (h : (finalizeTables p).Gives d w e) (hu : e.tables[pos]? = some u) :
    ∃ t new, AddsIndices p d pos t new e ∧ u.indices = t.indices ++ new ∧ t.KeyIndices new ∧
      (¬p.OnInnoDB e u → new = []) := by
  have hlength := (grows_finalizeTables h).length
  have hpos : pos < d.tables.length := hlength ▸ (List.getElem?_eq_some_iff.mp hu).1
  obtain ⟨s, v, hbefore, hadd, hafter⟩ := gives_finalizeTables_split hpos h
  obtain ⟨hg, hsame⟩ := afterKeyIndices_keeps hafter
  obtain ⟨x, hx, -⟩ := forall₂_getElem? hg.tables hu
  obtain ⟨t, ht, -⟩ := forall₂_getElem? (growsAt_addKeyIndices hadd).grows.tables hx
  obtain ⟨new, rfl, hnew, hother⟩ := addKeyIndices_new ht hadd
  have hlt := (List.getElem?_eq_some_iff.mp ht).1
  have hclear : u.clearReferrers = Table.clearReferrers { t with indices := t.indices ++ new } := by
    rw [hu, List.getElem?_set_self hlt] at hsame
    exact Option.some.inj hsame
  have hindices : u.indices = t.indices ++ new := congrArg Table.indices hclear
  have hvendor : u.vendor = t.vendor := (congrArg Table.vendor hclear :)
  refine ⟨t, new, ⟨s, hbefore, ht, hadd, hafter⟩, hindices, hnew, fun h => hother fun hengine => h ?_⟩
  exact (onInnoDB_congr hg.vendor hvendor).mpr hengine

/-! ### A finalized database -/

/-- After finalization the local columns of each key of a table on InnoDB are there and covered. The indices
    that the platform has added on the way are those of keys that nothing covered before, one for each
    list of columns, and on another engine or platform there are none. -/
theorem keys_indexed (hr : r.HooksKeep DistinctNames) (hd : d.DistinctNames) (h : (finalize limit r p).Gives d ran e)
    (hu : e.tables[pos]? = some u) :
    (p.OnInnoDB e u → ∀ k ∈ u.foreignKeys, k.localColumns ≠ [] ∧ u.Leads k.localColumns) ∧
      ∃ m t new, (settle limit r).Gives d ran m ∧ AddsIndices p (prepareTables m) pos t new e ∧
        u.indices = t.indices ++ new ∧ t.KeyIndices new ∧ (¬p.OnInnoDB e u → new = []) := by
  constructor
  · intro hengine k hk
    obtain ⟨-, -, -, hfin⟩ := finalized_of_finalize (hr.settles_of_iff distinctNames_withoutBehaviors) id hd h
    have hcomplete := (hfin.tables pos (List.getElem?_eq_some_iff.mp hu).1 u hu).complete
    have hne : k.localColumns ≠ [] := by
      simpa [ForeignKey.isImplicit, ForeignKey.localColumns] using hcomplete.explicit k hk
    exact ⟨hne, (Table.leads_iff hne).mpr (hcomplete.covered (Platform.onInnoDB_iff.mp hengine) k hk)⟩
  · obtain ⟨m, hm, he⟩ := gives_finalize.mp h
    obtain ⟨t, new, hrest⟩ := gives_finalizeTables_adds he hu
    exact ⟨m, t, new, hm, hrest⟩

/-- Trades, which are kept by InnoDB whatever the platform says, with keys over columns that are the first
    ones of the primary key, over equal columns, over some of these, and over columns yet to be added. Days
    are left to the platform. -/
def exchange : Database where
  name := "exchange"
  tables :=
    [{ name := "trade"
       vendor := [{ platform := "MySQL", parameters := Dictionary.ofList [("Type", "innodb")] }]
       columns :=
         [{ name := "day", domain := { type := .date }, primaryKey := true },
           { name := "number", domain := { type := .integer }, primaryKey := true },
           { name := "buyer", domain := { type := .integer } },
           { name := "seller", domain := { type := .integer } }]
       foreignKeys :=
         [{ name := "on", target := "day", references := [⟨"day", "date"⟩], table := "trade" },
           { name := "sides", target := "pair", references := [⟨"buyer", "one"⟩, ⟨"seller", "other"⟩], table := "trade" },
           { name := "parties", target := "pair", references := [⟨"buyer", "one"⟩, ⟨"seller", "other"⟩], table := "trade" },
           { name := "payer", target := "pair", references := [⟨"buyer", "one"⟩], table := "trade" },
           { name := "settlement", target := "day", table := "trade" }]
       behaviors :=
         [{ name := "archivable"
            id := "archivable"
            parameters := Dictionary.ofList Archivable.plugin.defaults
            table := some "trade" }] },
     { name := "day"
       columns := [{ name := "date", domain := { type := .date }, primaryKey := true }]
       foreignKeys := [{ name := "next", target := "day", table := "day" }] },
     { name := "pair"
       columns :=
         [{ name := "one", domain := { type := .integer }, primaryKey := true },
           { name := "other", domain := { type := .integer }, primaryKey := true }] }]

def finalizedExchange : Database :=
  (finalize settleLimit .builtin (.mysql "MyISAM") exchange).state

def finalizedTrade : Table :=
  finalizedExchange.tables[0]!

def finalizedDay : Table :=
  finalizedExchange.tables[1]!

/-- Trades get indices for the keys that lack one. Days are not kept by InnoDB, and get none for their own key. -/
theorem keys_indexed_exchange :
    Registry.builtin.HooksKeep DistinctNames ∧ exchange.DistinctNames ∧
      (finalize settleLimit .builtin (.mysql "MyISAM")).Gives exchange [.table "trade" "archivable"] finalizedExchange ∧
      finalizedExchange.tables[0]? = some finalizedTrade ∧
      (Platform.mysql "MyISAM").OnInnoDB finalizedExchange finalizedTrade ∧
      finalizedTrade.indices.map (·.name) = ["trade_fi_buyer_seller", "trade_fi_buyer", "trade_fi_settlementDate"] ∧
      (∀ k ∈ finalizedTrade.foreignKeys, k.localColumns ≠ [] ∧ finalizedTrade.Leads k.localColumns) ∧
      (∃ m t new, (settle settleLimit .builtin).Gives exchange [.table "trade" "archivable"] m ∧
        AddsIndices (.mysql "MyISAM") (prepareTables m) 0 t new finalizedExchange ∧
        finalizedTrade.indices = t.indices ++ new ∧ t.KeyIndices new ∧
        (¬(Platform.mysql "MyISAM").OnInnoDB finalizedExchange finalizedTrade → new = [])) ∧
      finalizedExchange.tables[1]? = some finalizedDay ∧
      ¬(Platform.mysql "MyISAM").OnInnoDB finalizedExchange finalizedDay ∧
      finalizedDay.foreignKeys.map (·.localColumns) = [["nextDate"]] ∧ ¬finalizedDay.Leads ["nextDate"] ∧
      ∃ m t new, (settle settleLimit .builtin).Gives exchange [.table "trade" "archivable"] m ∧
        AddsIndices (.mysql "MyISAM") (prepareTables m) 1 t new finalizedExchange ∧
        finalizedDay.indices = t.indices ++ new ∧ t.KeyIndices new ∧ new = [] := by
  have hr := Registry.builtin_keeps_distinctNames
  have hd : exchange.DistinctNames := by decide
  have h : (finalize settleLimit .builtin (.mysql "MyISAM")).Gives exchange [.table "trade" "archivable"]
      finalizedExchange := ⟨rfl, rfl⟩
  have htrade : finalizedExchange.tables[0]? = some finalizedTrade := rfl
  have hday : finalizedExchange.tables[1]? = some finalizedDay := rfl
  have hengine : (Platform.mysql "MyISAM").OnInnoDB finalizedExchange finalizedTrade := ⟨"MyISAM", rfl, by decide⟩
  have hother : ¬(Platform.mysql "MyISAM").OnInnoDB finalizedExchange finalizedDay :=
    Platform.onInnoDB_iff.not.mpr (by decide)
  have hfree : ¬finalizedDay.Leads ["nextDate"] := (Table.leads_iff (by decide)).not.mpr (by decide)
  obtain ⟨hcovered, htradeIndices⟩ := keys_indexed hr hd h htrade
  obtain ⟨-, m, t, new, hm, hadds, hindices, hnew, hnone⟩ := keys_indexed hr hd h hday
  exact ⟨hr, hd, h, htrade, hengine, by decide, hcovered hengine, htradeIndices, hday, hother, by decide, hfree,
    m, t, new, hm, hadds, hindices, hnew, hnone hother⟩

end Database

end Schemata
