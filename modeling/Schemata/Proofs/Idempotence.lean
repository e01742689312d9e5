import Schemata.Proofs.Finalize

/-!
# Finalizing a schema again

A schema that was finalized is finalized again without a change and without a run of a behavior. Where
the configuration forces heavy indexing, a hook may have cleared the flag of a database after the first
call set it; the second call sets it again and changes nothing else (`finalize_again`).
-/

namespace Schemata

namespace Database
variable {d : Database} {p : Platform} {n : Nat}

/-- A finalized database has handed its settings to its tables and no longer depends on them. -/
theorem FinalizedTo.of_settings (h : d.FinalizedTo p n) (settings : Settings) :
    FinalizedTo { d with settings := settings } p n where
  names := ⟨h.names.tables, h.names.inTables⟩
  inherits := fun t ht => ⟨(h.inherits t ht).settings, (h.inherits t ht).nameSpace⟩
  tables := fun i hi t ht =>
    ⟨(h.tables i hi t ht).complete.of_vendor rfl, (h.tables i hi t ht).flag, (h.tables i hi t ht).resolved⟩
  linked := ⟨h.linked.known, h.linked.tables, h.linked.columns⟩

end Database

namespace Schema
variable {s t : Schema} {r : Registry} {p : Platform} {limit : Nat} {c : Config} {w : Unit}

theorem gives_finalize : (finalize limit r p).Gives s w t ↔ ∃ ds,
    List.Forall₂ (fun d e => ∃ ran, (Database.finalize limit r p).Gives d ran e) s.databases ds ∧
      t = { s with databases := ds } := by
  have hstep : ∀ d e, (do let _ ← Database.finalize limit r p : Edit Database Unit).Gives d () e ↔
      ∃ ran, (Database.finalize limit r p).Gives d ran e := fun d e => by
    simp only [Change.gives_bind, Change.gives_pure]
    constructor
    · rintro ⟨ran, _, h, -, rfl⟩
      exact ⟨ran, h⟩
    · rintro ⟨ran, h⟩
      exact ⟨ran, e, h, trivial, rfl⟩
  simp only [finalize, Change.gives_within, Change.gives_each, hstep]

/-- The schema as a configuration wants it: indexed heavily, if that is forced. -/
def forced (s : Schema) (c : Config) : Schema :=
  if c.heavyIndexing then s.forceHeavyIndexing else s

theorem gives_finalizeWithin : (finalizeWithin limit r c).Gives s w t ↔
    (finalize limit r c.platform).Gives (s.forced c) w t := by
  unfold finalizeWithin forced
  split <;> simp

/-- A schema is left as it is when each of its databases is. -/
theorem finalize_self (h : ∀ d ∈ s.databases, (Database.finalize limit r p).Gives d [] d) :
    (finalize limit r p).Gives s () s := by
  refine gives_finalize.mpr ⟨s.databases, List.forall₂_same.mpr fun d hd => ⟨[], h d hd⟩, ?_⟩
  cases s
  rfl

theorem distinct_forced (hs : ∀ d ∈ s.databases, d.Distinct) (c : Config) : ∀ d ∈ (s.forced c).databases, d.Distinct := by
  unfold forced
  split
  · intro e he
    obtain ⟨d, hd, rfl⟩ := List.mem_map.mp he
    obtain ⟨hnames, hbehaviors⟩ := hs d hd
    exact ⟨⟨hnames.tables, hnames.inTables⟩, ⟨hbehaviors.own, hbehaviors.inTables⟩⟩
  · exact hs

/-- Where the flags are set there is nothing to force. -/
theorem forced_self (h : c.heavyIndexing = true → ∀ d ∈ s.databases, d.settings.heavyIndexing = true) :
    s.forced c = s := by
  unfold forced
  split
  · rename_i hc
    have hmap : s.databases.map (fun d => { d with settings := { d.settings with heavyIndexing := true } }) =
        s.databases := by
      conv_rhs => rw [← List.map_id s.databases]
      refine List.map_congr_left fun d hd => ?_
      rw [← h hc d hd]
      rfl
    rw [forceHeavyIndexing, hmap]
    cases s
    rfl
  · rfl

/-- Every database is finalized, nothing is pending, and the limit admits a round. -/
def Settled (s : Schema) (p : Platform) (limit : Nat) : Prop :=
  ∀ d ∈ s.databases, d.Finalized p ∧ d.Quiet ∧ 0 < limit

theorem Settled.finalize_self (h : s.Settled p limit) :
    ∀ d ∈ s.databases, (Database.finalize limit r p).Gives d [] d := by
  intro d hd
  obtain ⟨hfin, hquiet, hl⟩ := h d hd
  exact hfin.finalize_self hquiet hl

theorem Settled.forced (h : s.Settled p limit) (c : Config) : (s.forced c).Settled p limit := by
  unfold Schema.forced
  split
  · intro e he
    obtain ⟨d, hd, rfl⟩ := List.mem_map.mp he
    obtain ⟨hfin, hquiet, hl⟩ := h d hd
    exact ⟨hfin.of_settings _, ⟨hquiet.own, hquiet.inTables⟩, hl⟩
  · exact h

/-- The first call settles the schema. -/
theorem settled_of_finalize (hr : r.HooksKeep Database.Distinct) (hs : ∀ d ∈ s.databases, d.Distinct)
    (h : (finalize limit r p).Gives s w t) : t.Settled p limit := by
  have hsettles : r.Settles fun d e => d.Distinct → e.Distinct :=
    hr.settles
      (fun h hd => ⟨Database.spread_distinctNames h hd.names, Database.spread_distinctBehaviors h hd.behaviors⟩)
      (fun k d hd => ⟨Database.mark_distinctNames k hd.names, Database.mark_distinctBehaviors k hd.behaviors⟩)
  obtain ⟨ds, hds, rfl⟩ := gives_finalize.mp h
  intro e he
  obtain ⟨i, hi⟩ := List.getElem?_of_mem he
  obtain ⟨d, hd, ran, hran⟩ := forall₂_getElem? hds hi
  have hdist := hs d (List.mem_of_getElem? hd)
  obtain ⟨-, -, -, hfin⟩ := Database.finalized_of_finalize hsettles (·.names) hdist hran
  obtain ⟨m, hm, -⟩ := Database.gives_finalize.mp hran
  exact ⟨hfin, Database.quiet_of_finalize hsettles (·.names) hdist hran, Database.limit_pos hm⟩

/-- Finalizing again succeeds, runs no behavior and changes nothing, but for the flag that the
    configuration forces and a hook may have cleared. -/
theorem finalize_again (hr : r.HooksKeep Database.Distinct) (hs : ∀ d ∈ s.databases, d.Distinct) :
    ((finalize limit r p).Gives s () t →
      (finalize limit r p).Gives t () t ∧ ∀ d ∈ t.databases, (Database.finalize limit r p).Gives d [] d) ∧
    ((finalizeWithin limit r c).Gives s () t →
      (finalizeWithin limit r c).Gives t () (t.forced c) ∧
        (∀ d ∈ (t.forced c).databases, (Database.finalize limit r c.platform).Gives d [] d) ∧
        ((c.heavyIndexing = true → ∀ d ∈ t.databases, d.settings.heavyIndexing = true) → t.forced c = t)) := by
  constructor
  · intro h
    have ht := settled_of_finalize hr hs h
    exact ⟨finalize_self ht.finalize_self, ht.finalize_self⟩
  · intro h
    have ht := (settled_of_finalize hr (distinct_forced hs c) (gives_finalizeWithin.mp h)).forced c
    exact ⟨gives_finalizeWithin.mpr (finalize_self ht.finalize_self), ht.finalize_self, forced_self⟩

/-- The library, finalized with heavy indexing for MySQL. -/
def shelf : Schema where
  databases := [Database.library]

def heavyMysql : Config where
  kind := .mysql
  heavyIndexing := true

theorem finalize_again_shelf :
    Registry.builtin.HooksKeep Database.Distinct ∧ (∀ d ∈ shelf.databases, d.Distinct) ∧ ∃ t u,
      (finalize settleLimit .builtin heavyMysql.platform).Gives shelf () t ∧
      (finalize settleLimit .builtin heavyMysql.platform).Gives t () t ∧
      (finalizeWith .builtin heavyMysql).Gives shelf () u ∧ (finalizeWith .builtin heavyMysql).Gives u () u := by
  have hr : Registry.builtin.HooksKeep Database.Distinct := Registry.builtin_keeps_distinct
  have hs : ∀ d ∈ shelf.databases, d.Distinct := by decide
  have ht : (finalize settleLimit .builtin heavyMysql.platform).Gives shelf ()
      (finalize settleLimit .builtin heavyMysql.platform shelf).state := ⟨rfl, rfl⟩
  have hu : (finalizeWith .builtin heavyMysql).Gives shelf () (finalizeWith .builtin heavyMysql shelf).state :=
    ⟨rfl, rfl⟩
  obtain ⟨hagain, -, hsame⟩ := (finalize_again (p := heavyMysql.platform) hr hs).2 hu
  have hflags : ∀ d ∈ (finalizeWith .builtin heavyMysql shelf).state.databases, d.settings.heavyIndexing = true := by
    decide +kernel
  rw [hsame fun _ => hflags] at hagain
  exact ⟨hr, hs, _, _, ht, ((finalize_again (c := heavyMysql) hr hs).1 ht).1, hu, hagain⟩

/-- A hook that clears the flag of its database. -/
def resetting : Registry :=
  Dictionary.ofList
    [("reset", { databaseHook := some fun _ => Change.modify fun d =>
        { d with settings := { d.settings with heavyIndexing := false } } })]

theorem resetting_keeps_distinct : resetting.HooksKeep Database.Distinct := by
  refine Registry.hooksObey_ofList fun q hq => ?_
  obtain rfl := List.mem_singleton.mp hq
  constructor
  · rintro hook ⟨⟩ b d e h ⟨hnames, hbehaviors⟩
    obtain rfl := Change.gives_modify.mp h
    exact ⟨⟨hnames.tables, hnames.inTables⟩, ⟨hbehaviors.own, hbehaviors.inTables⟩⟩
  · rintro hook ⟨⟩

def shop : Schema where
  databases := [{ name := "shop", behaviors := [{ name := "reset", id := "reset" }] }]

def heavy : Config where
  heavyIndexing := true

/-- The second call sets the flag that the hook has cleared during the first one. -/
theorem forced_flag_returns :
    resetting.HooksKeep Database.Distinct ∧ (∀ d ∈ shop.databases, d.Distinct) ∧ ∃ t u,
      (finalizeWith resetting heavy).Gives shop () t ∧ (finalizeWith resetting heavy).Gives t () u ∧ u ≠ t := by
  refine ⟨resetting_keeps_distinct, by decide, _, _, ⟨rfl, rfl⟩, ⟨rfl, rfl⟩, fun h => ?_⟩
  have hflags := congrArg (fun s : Schema => s.databases.map (·.settings.heavyIndexing)) h
  revert hflags
  decide +kernel

end Schema

end Schemata
