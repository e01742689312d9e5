import Schemata.Proofs.Failures
import Schemata.Proofs.Hooks
import Schemata.Proofs.Marks

/-!
# Built-in behaviors settle in two rounds

The built-in hooks attach no behavior and the tables that they add carry none, so each run leaves one
pending behavior less, and none that was not pending before it (`Database.AttachesNone`). The copies that
a behavior of the database leaves on the tables are worked off later in the same round. Hence one round
leaves nothing pending, unless an archive cannot be built, and the next one finds nothing to run
(`settles_in_two_rounds`). The numbers of rounds and of keys that are allowed play no part in this.
-/

namespace Schemata

/-! ### Runs that bring up nothing new -/

namespace Worklist
variable {ε σ κ : Type} [DecidableEq κ] {pending : σ → List κ} {run : κ → Change ε σ Bool} {endless : σ → ε}
variable {I : σ → Prop} {P : ε → Prop} {s : σ}

/-- Runs of keys keep `I`, fail only with errors of which `P` holds, and leave pending what was pending
    before, without their own key. -/
structure Dwindles (pending : σ → List κ) (run : κ → Change ε σ Bool) (I : σ → Prop) (P : ε → Prop) : Prop where
  fails : ∀ {s}, I s → ∀ k, (run k).FailsWithin P s
  keeps : ∀ {s k b t}, I s → (run k).Gives s b t → I t
  pending : ∀ {s k b t}, I s → (run k).Gives s b t → ∀ j ∈ pending t, j ∈ pending s ∧ j ≠ k

theorem Dwindles.drain {w : Worklist κ} {fuel : Nat} (h : Dwindles pending run I P) (hw : w.Sound) (hs : I s)
    (hpending : ∀ j ∈ pending s, j ∈ w.waiting) (hfuel : w.waiting.length ≤ fuel) :
    (drain pending run endless fuel w).GivesUnless P s fun _ t => I t ∧ pending t = [] := by
  induction hq : w.waiting generalizing w s fuel with
  | nil =>
    have hnone : pending s = [] := List.eq_nil_iff_forall_not_mem.mpr fun j hj => by
      have hj := hpending j hj
      rw [hq] at hj
      cases hj
    exact .of_gives ((gives_drain_nil hq).mpr ⟨rfl, rfl⟩) ⟨hs, hnone⟩
  | cons k rest ih =>
    rw [hq, List.length_cons] at hfuel
    obtain ⟨fuel, rfl⟩ := Nat.exists_eq_succ_of_ne_zero (Nat.ne_of_gt (Nat.lt_of_lt_of_le (Nat.succ_pos _) hfuel))
    obtain ⟨hpop, -⟩ := hw.pop hq
    simp only [Worklist.drain, hq]
    refine ((h.fails hs k).givesUnless fun b t hb => hb).bind fun b t _ hb => ?_
    have hrest : ∀ j ∈ pending t, j ∈ rest := fun j hj => by
      obtain ⟨hj, hjk⟩ := h.pending hs hb j hj
      have hj := hpending j hj
      rw [hq] at hj
      exact (List.mem_cons.mp hj).resolve_left hjk
    have hlater := ih hpop (h.keeps hs hb) hrest (Nat.le_of_succ_le_succ hfuel) rfl
    cases b with
    | false => exact hlater
    | true =>
      -- All that is pending waits already, so nothing is added to the list.
      refine .after (Change.gives_get.mpr ⟨rfl, rfl⟩) ?_
      rw [pushAll_of_seen fun j hj => hpop.seen j (hrest j hj)]
      exact hlater.bind fun later u _ hu => .of_gives (Change.gives_pure.mpr ⟨rfl, rfl⟩) hu

/-- Such work ends with nothing pending, and needs no slack for it. -/
theorem Dwindles.work (h : Dwindles pending run I P) (hs : I s) (slack : Nat) :
    (work slack pending run endless).GivesUnless P s fun _ t => I t ∧ pending t = [] := by
  refine .after (Change.gives_get.mpr ⟨rfl, rfl⟩) (h.drain (sound_empty.pushAll _) hs ?_ ?_)
  · exact fun j hj => mem_waiting_pushAll hj List.not_mem_nil
  · have hlength : ((pushAll {} (pending s)).waiting : List κ).length ≤ 0 + (pending s).length := length_pushAll {} _
    omega

end Worklist

/-! ### Hooks that attach nothing -/

namespace Database
variable {d e m : Database} {b : Behavior} {w : Unit}

/-- `e` carries behaviors only where `d` does, and names and ids stay distinct. -/
structure AttachesNone (d e : Database) : Prop where
  own : e.behaviors = d.behaviors
  inTables : ∀ u ∈ e.tables, ∀ b ∈ u.behaviors, ∃ t ∈ d.tables, t.name = u.name ∧ b ∈ t.behaviors
  names : d.tableNames.Nodup → e.tableNames.Nodup
  ids : d.DistinctBehaviors → e.DistinctBehaviors

theorem AttachesNone.refl (d : Database) : d.AttachesNone d :=
  ⟨rfl, fun t ht _ hb => ⟨t, ht, rfl, hb⟩, id, id⟩

theorem Grows.attachesNone (h : d.Grows e) : d.AttachesNone e where
  own := h.behaviors
  inTables := fun u hu b hb => by
    obtain ⟨i, hi⟩ := List.getElem?_of_mem hu
    obtain ⟨t, ht, hg⟩ := forall₂_getElem? h.tables hi
    exact ⟨t, List.mem_of_getElem? ht, hg.name.symm, hg.behaviors ▸ hb⟩
  names := fun hd => h.tableNames ▸ hd
  ids := h.distinctBehaviors

/-- A table without behaviors joins. -/
theorem attachesNone_append {t : Table} (ht : d.hasTable t.name = false) (hb : t.behaviors = []) :
    d.AttachesNone { d with tables := d.tables ++ [t] } where
  own := rfl
  inTables := by
    refine forall_mem_append_singleton (fun u hu b hb => ⟨u, hu, rfl, hb⟩) fun b hmem => ?_
    rw [hb] at hmem
    cases hmem
  names := fun hd => tableNames_append hd ht
  ids := fun hd => ⟨hd.own, forall_mem_append_singleton hd.inTables (by simp [hb])⟩

theorem AttachesNone.pendingBehaviors (h : d.AttachesNone e) : e.pendingBehaviors = d.pendingBehaviors := by
  rw [Database.pendingBehaviors, h.own, Database.pendingBehaviors]

theorem AttachesNone.pendingTableBehaviors (h : d.AttachesNone e) {key : String × String}
    (hkey : key ∈ e.pendingTableBehaviors) : key ∈ d.pendingTableBehaviors := by
  obtain ⟨u, hu, hname, b, hb, hwaits⟩ := mem_pendingTableBehaviors.mp hkey
  obtain ⟨t, ht, htu, hbt⟩ := h.inTables u hu b hb
  exact mem_pendingTableBehaviors.mpr ⟨t, ht, htu.trans hname, b, hbt, hwaits⟩

end Database

namespace Timestampable
variable {d e : Database} {b : Behavior} {P : Error → Prop} {w : Unit}

/-- On a table that is there, the hook never fails. -/
theorem tableHook_fails {name : String} {t : Table} (ht : d.table? name = some t) :
    (tableHook b name).FailsWithin P d := by
  obtain ⟨pos, hpos, -⟩ := find?_eq_some_iff_findIdx?.mp ht
  refine .of_get ?_
  simp only [hpos]
  refine .within (.atPosition fun u _ => .forEach (fun column _ v => .of_get ?_) u)
  split
  · exact Change.failsWithin_pure _
  · rename_i hfresh
    refine (Change.failsWithin_report _).bind fun _ x hx => Change.failsWithin_attempt ?_
    obtain rfl := Change.gives_report.mp hx
    rw [Table.addColumn_eq_ok.mpr ⟨Bool.eq_false_iff.mpr hfresh, rfl⟩]
    trivial

theorem attachesNone_tableHook {name : String} (h : (tableHook b name).Gives d w e) : d.AttachesNone e :=
  (grows_tableHook h).attachesNone

end Timestampable

namespace Archivable
variable {d e : Database} {b : Behavior} {w : Unit}

/-- An archive that cannot be built ends with this error. -/
def Refuses (err : Error) : Prop :=
  ∃ source name b, archive source name b = .error err

theorem archive_fails (source : Table) (name : String) (b : Behavior) : FailsWithin Refuses (archive source name b) := by
  cases h : archive source name b with
  | ok t => trivial
  | error err => exact ⟨source, name, b, h⟩

/-! An archive is refused for its columns and indices, never for a limit -/

theorem checkedIndex_fails (t : Table) (kind : IndexKind) (i : Index) :
    FailsWithin (fun err => ∀ f, err ≠ Database.unsettled f) (t.checkedIndex kind i) := by
  unfold Table.checkedIndex
  split
  · simp [Database.unsettled]
  · split
    · simp [Database.unsettled]
    · dsimp only
      split <;> simp [Database.unsettled]

theorem addPlainIndices_fails (t : Table) (us : List Index) :
    FailsWithin (fun err => ∀ f, err ≠ Database.unsettled f) (addPlainIndices t us) := by
  induction us generalizing t with
  | nil => trivial
  | cons u us ih =>
    unfold addPlainIndices
    split
    · exact ih _
    · rename_i err herr
      have hadd : FailsWithin (fun err => ∀ f, err ≠ Database.unsettled f) (t.addMissingIndex u) := by
        unfold Table.addMissingIndex
        split
        · trivial
        · simp only [Table.addIndex, failsWithin_map, checkedIndex_fails]
      rw [herr] at hadd
      exact hadd

theorem addArchivedColumn_fails (t : Table) (b : Behavior) :
    FailsWithin (fun err => ∀ f, err ≠ Database.unsettled f) (addArchivedColumn t b) := by
  unfold addArchivedColumn
  split
  · split
    · trivial
    · rename_i hfresh
      rw [Table.addColumn_eq_ok.mpr ⟨Bool.eq_false_iff.mpr hfresh, rfl⟩]
      trivial
  · trivial

theorem Refuses.ne_unsettled {err : Error} (h : Refuses err) (f : Database) : err ≠ Database.unsettled f := by
  obtain ⟨source, name, b, h⟩ := h
  have harchive : FailsWithin (fun err => ∀ f, err ≠ Database.unsettled f) (archive source name b) :=
    failsWithin_bind.mpr ⟨addPlainIndices_fails _ _, fun t _ => addArchivedColumn_fails _ b⟩
  rw [h] at harchive
  exact harchive f

/-- On a table that is there, the hook fails only where the archive cannot be built. -/
theorem tableHook_fails {name : String} {t : Table} (ht : d.table? name = some t) :
    (tableHook b name).FailsWithin Refuses d := by
  refine .of_get ?_
  dsimp only
  split
  · exact Change.failsWithin_pure _
  · rename_i hfree
    simp only [ht]
    refine (Change.failsWithin_ofExcept (archive_fails _ _ _)).bind fun u f hu => ?_
    obtain ⟨harchive, rfl⟩ := Change.gives_ofExcept.mp hu
    refine (Change.failsWithin_report _).bind fun _ f hf => Change.failsWithin_attempt ?_
    obtain rfl := Change.gives_report.mp hf
    obtain ⟨hname, -⟩ := archive_eq_ok harchive
    rw [Database.addTable, hname, if_neg hfree]
    trivial

theorem attachesNone_tableHook {name : String} (h : (tableHook b name).Gives d w e) : d.AttachesNone e := by
  rcases gives_tableHook h with rfl | ⟨source, t, -, hfree, ht, rfl⟩
  · exact .refl _
  · exact Database.attachesNone_append hfree (archive_eq_ok ht).2.2.1

end Archivable

/-! ### Behaviors with a built-in plugin -/

namespace Registry
variable {r : Registry} {b : Behavior} {d e : Database} {hook : Behavior → String → Edit Database Unit} {w : Unit}

/-- The behaviors of a name are timestampable or archivable. -/
def IsBuiltin (r : Registry) (name : String) : Prop :=
  r.get? name = some Timestampable.plugin ∨ r.get? name = some Archivable.plugin

theorem IsBuiltin.databaseHook? (h : r.IsBuiltin b.name) : r.databaseHook? b = none := by
  rcases h with h | h <;> rw [Registry.databaseHook?, h] <;> rfl

theorem IsBuiltin.tableHook? (h : r.IsBuiltin b.name) :
    r.tableHook? b = some Timestampable.tableHook ∨ r.tableHook? b = some Archivable.tableHook := by
  refine h.imp (fun h => ?_) fun h => ?_ <;> rw [Registry.tableHook?, h] <;> rfl

theorem IsBuiltin.hook_fails (h : r.IsBuiltin b.name) (hhook : r.tableHook? b = some hook) {name : String} {t : Table}
    (ht : d.table? name = some t) : (hook b name).FailsWithin Archivable.Refuses d := by
  rcases h.tableHook? with h | h <;> rw [h] at hhook <;> cases hhook
  · exact Timestampable.tableHook_fails ht
  · exact Archivable.tableHook_fails ht

theorem IsBuiltin.attachesNone (h : r.IsBuiltin b.name) (hhook : r.tableHook? b = some hook) {name : String}
    (hd : (hook b name).Gives d w e) : d.AttachesNone e := by
  rcases h.tableHook? with h | h <;> rw [h] at hhook <;> cases hhook
  · exact Timestampable.attachesNone_tableHook hd
  · exact Archivable.attachesNone_tableHook hd

end Registry

namespace Database
variable {r : Registry} {d e : Database} {b : Behavior} {w : Unit}

/-- Tables have distinct names, the behaviors of each owner distinct ids, and all of them are built in. -/
structure OnlyBuiltin (r : Registry) (d : Database) : Prop where
  names : d.tableNames.Nodup
  ids : d.DistinctBehaviors
  own : ∀ b ∈ d.behaviors, r.IsBuiltin b.name
  inTables : ∀ t ∈ d.tables, ∀ b ∈ t.behaviors, r.IsBuiltin b.name

theorem AttachesNone.onlyBuiltin (h : d.AttachesNone e) (hd : d.OnlyBuiltin r) : e.OnlyBuiltin r where
  names := h.names hd.names
  ids := h.ids hd.ids
  own := h.own ▸ hd.own
  inTables := fun u hu b hb => by
    obtain ⟨t, ht, -, hbt⟩ := h.inTables u hu b hb
    exact hd.inTables t ht b hbt

theorem onlyBuiltin_spread (hd : d.OnlyBuiltin r) (hb : b ∈ d.behaviors) (h : (spread b).Gives d w e) :
    e.OnlyBuiltin r := by
  have hnames := (attaches_spread h).names hd.names
  have hids := spread_distinctBehaviors h hd.ids
  obtain ⟨us, rfl, hus⟩ := gives_spread h
  refine ⟨hnames, hids, hd.own, fun u hu c hc => ?_⟩
  obtain ⟨i, hi⟩ := List.getElem?_of_mem hu
  obtain ⟨t, ht, htu⟩ := forall₂_getElem? hus hi
  have hin := hd.inTables t (List.mem_of_getElem? ht)
  rcases htu with rfl | ⟨rfl, -⟩
  · exact hin c hc
  · rcases List.mem_append.mp hc with hc | hc
    · exact hin c hc
    · obtain rfl := List.mem_singleton.mp hc
      exact hd.own b hb

/-- A mark changes no names, and by those the plugins are found. -/
theorem onlyBuiltin_mark (hd : d.OnlyBuiltin r) (k : HookRun) : (d.mark k).OnlyBuiltin r := by
  obtain ⟨hown, htables⟩ := map_behaviors_mark (g := (·.name)) (fun _ => rfl) k d
  have hall := forall_of_map_eq (P := fun names => ∀ name ∈ names, r.IsBuiltin name) htables fun t ht =>
    List.forall_mem_map.mpr (hd.inTables t ht)
  exact ⟨tableNames_mark k d ▸ hd.names, mark_distinctBehaviors k hd.ids,
    forall_of_map_eq (P := r.IsBuiltin) hown hd.own, fun t ht => List.forall_mem_map.mp (hall t ht)⟩

end Database

/-! ### One run -/

/-- What is pending after a mark was so before it and has another id. -/
theorem Behavior.mem_markFirst {bs : List Behavior} {b : Behavior} {id : String} (hbs : (bs.map (·.id)).Nodup)
    (hb : b ∈ markFirst id bs) (hwaits : b.executed = false) : b ∈ bs ∧ b.id ≠ id := by
  rw [markFirst, modifyFirst_eq_map hbs] at hb
  obtain ⟨c, hc, rfl⟩ := List.mem_map.mp hb
  by_cases hid : c.id = id
  · rw [if_pos hid] at hwaits
    cases hwaits
  · rw [if_neg hid]
    exact ⟨hc, hid⟩

namespace Database
variable {r : Registry} {d e : Database} {ran : Bool}

theorem pendingBehaviors_mark {id j : String} (hd : d.DistinctBehaviors)
    (hj : j ∈ (d.mark (.database id)).pendingBehaviors) : j ∈ d.pendingBehaviors ∧ j ≠ id := by
  obtain ⟨b, hb, hwaits, rfl⟩ := mem_pendingBehaviors.mp hj
  obtain ⟨hb, hid⟩ := Behavior.mem_markFirst hd.own hb hwaits
  exact ⟨mem_pendingBehaviors.mpr ⟨b, hb, hwaits, rfl⟩, hid⟩

theorem pendingTableBehaviors_mark {key k : String × String} (hnames : d.tableNames.Nodup) (hd : d.DistinctBehaviors)
    (hkey : key ∈ (d.mark (.table k.1 k.2)).pendingTableBehaviors) : key ∈ d.pendingTableBehaviors ∧ key ≠ k := by
  obtain ⟨u, hu, hname, b, hb, hwaits, hid⟩ := mem_pendingTableBehaviors.mp hkey
  rw [mark, modifyTable, modifyFirst_eq_map hnames] at hu
  obtain ⟨t, ht, rfl⟩ := List.mem_map.mp hu
  by_cases hk : t.name = k.1
  · rw [if_pos hk] at hname hb
    obtain ⟨hb, hne⟩ := Behavior.mem_markFirst (hd.inTables t ht) hb hwaits
    refine ⟨mem_pendingTableBehaviors.mpr ⟨t, ht, hname, b, hb, hwaits, hid⟩, ?_⟩
    rintro rfl
    exact hne hid
  · rw [if_neg hk] at hname hb
    refine ⟨mem_pendingTableBehaviors.mpr ⟨t, ht, hname, b, hb, hwaits, hid⟩, ?_⟩
    rintro rfl
    exact hk hname

/-- Copies go only to tables that take them. -/
theorem spread_fails {P : Error → Prop} (b : Behavior) (d : Database) : (spread b).FailsWithin P d := by
  refine .within (.each fun t _ => Change.failsWithin_attempt ?_)
  split
  · trivial
  · rename_i hfree
    have hcopy : Behavior.isTaken t.behaviors { b.forTable t.name with table := some t.name } = false :=
      Bool.eq_false_iff.mpr hfree
    rw [Table.addBehavior, Behavior.attach_eq_ok.mpr ⟨hcopy, rfl⟩]
    trivial

theorem mark_fails {P : Error → Prop} (k : HookRun) (d : Database) :
    (do Change.modify (mark k); pure true : Edit Database Bool).FailsWithin P d :=
  (Change.failsWithin_modify _).bind fun _ _ _ => Change.failsWithin_pure _

theorem gives_builtinBehavior (hd : d.OnlyBuiltin r) {id : String} (h : (runBehavior r id).Gives d ran e) :
    ran = false ∧ e = d ∨
      ∃ m : Database, m.OnlyBuiltin r ∧ m.behaviors = d.behaviors ∧ e = m.mark (.database id) := by
  obtain ⟨hran, -, rfl⟩ | ⟨-, b, m, hb, hm, rfl⟩ := gives_runBehavior h
  · exact Or.inl ⟨hran, rfl⟩
  · have hmem := List.mem_of_find?_eq_some hb
    refine Or.inr ⟨m, ?_⟩
    rcases hm with ⟨hook, hhook, -⟩ | hm | rfl
    · rw [(hd.own b hmem).databaseHook?] at hhook
      cases hhook
    · refine ⟨onlyBuiltin_spread hd hmem hm, ?_, rfl⟩
      obtain ⟨us, rfl, -⟩ := gives_spread hm
      rfl
    · exact ⟨hd, rfl, rfl⟩

theorem gives_builtinTableBehavior (hd : d.OnlyBuiltin r) {key : String × String}
    (h : (runTableBehavior r key).Gives d ran e) :
    ran = false ∧ e = d ∨ ∃ m : Database, d.AttachesNone m ∧ e = m.mark (.table key.1 key.2) := by
  obtain ⟨hran, -, rfl⟩ | ⟨-, b, m, hb, hm, rfl⟩ := gives_runTableBehavior h
  · exact Or.inl ⟨hran, rfl⟩
  · obtain ⟨t, ht, hb⟩ := Option.bind_eq_some_iff.mp hb
    have hbuiltin := hd.inTables t (List.mem_of_find?_eq_some ht) b (List.mem_of_find?_eq_some hb)
    refine Or.inr ⟨m, ?_, rfl⟩
    rcases hm with ⟨hook, hhook, hm⟩ | ⟨-, rfl⟩
    · exact hbuiltin.attachesNone hhook hm
    · exact .refl _

/-! ### Rounds -/

theorem dwindles_runBehavior :
    Worklist.Dwindles pendingBehaviors (runBehavior r) (·.OnlyBuiltin r) Archivable.Refuses where
  fails := fun {d} hd id => by
    refine .of_get ?_
    dsimp only
    split
    · exact Change.failsWithin_pure _
    · rename_i b hb
      simp only [(hd.own b (List.mem_of_find?_eq_some hb)).databaseHook?]
      split
      · exact (spread_fails b d).bind fun _ m _ => mark_fails (.database id) m
      · exact mark_fails (.database id) d
  keeps := fun hd h => by
    obtain ⟨-, rfl⟩ | ⟨m, hm, -, rfl⟩ := gives_builtinBehavior hd h
    · exact hd
    · exact onlyBuiltin_mark hm _
  pending := fun {d id ran e} hd h j hj => by
    obtain ⟨rfl, rfl⟩ | ⟨m, hm, hsame, rfl⟩ := gives_builtinBehavior hd h
    · refine ⟨hj, ?_⟩
      rintro rfl
      exact not_gives_runBehavior_false hj h
    · obtain ⟨hj, hne⟩ := pendingBehaviors_mark hm.ids hj
      exact ⟨by rwa [pendingBehaviors, hsame] at hj, hne⟩

theorem dwindles_runTableBehavior :
    Worklist.Dwindles pendingTableBehaviors (runTableBehavior r) (fun d => d.OnlyBuiltin r ∧ d.pendingBehaviors = [])
      Archivable.Refuses where
  fails := fun {d} hd key => by
    refine .of_get ?_
    dsimp only
    split
    · exact Change.failsWithin_pure _
    · rename_i b hb
      obtain ⟨t, ht, hb⟩ := Option.bind_eq_some_iff.mp hb
      split
      · rename_i hook hhook
        have hbuiltin := hd.1.inTables t (List.mem_of_find?_eq_some ht) b (List.mem_of_find?_eq_some hb)
        refine (Change.failsWithin_report _).bind fun _ m hm => ?_
        obtain rfl := Change.gives_report.mp hm
        exact (hbuiltin.hook_fails hhook ht).bind fun _ m _ => mark_fails (.table key.1 key.2) m
      · exact mark_fails (.table key.1 key.2) d
  keeps := fun hd h => by
    obtain ⟨-, rfl⟩ | ⟨m, hm, rfl⟩ := gives_builtinTableBehavior hd.1 h
    · exact hd
    · exact ⟨onlyBuiltin_mark (hm.onlyBuiltin hd.1) _, hm.pendingBehaviors.trans hd.2⟩
  pending := fun {d key ran e} hd h j hj => by
    obtain ⟨rfl, rfl⟩ | ⟨m, hm, rfl⟩ := gives_builtinTableBehavior hd.1 h
    · refine ⟨hj, ?_⟩
      rintro rfl
      exact not_gives_runTableBehavior_false hd.1.names hj h
    · have hmb := hm.onlyBuiltin hd.1
      obtain ⟨hj, hne⟩ := pendingTableBehaviors_mark hmb.names hmb.ids hj
      exact ⟨hm.pendingTableBehaviors hj, hne⟩

/-- One round leaves nothing pending, unless an archive cannot be built. -/
theorem settleRound_quiets (hd : d.OnlyBuiltin r) (slack : Nat) :
    (settleRound slack r).GivesUnless Archivable.Refuses d fun _ e => e.Quiet := by
  refine (dwindles_runBehavior.work hd slack).bind fun ids m _ hm => ?_
  refine (dwindles_runTableBehavior.work hm slack).bind fun keys e _ ⟨⟨_, hown⟩, htables⟩ => ?_
  exact .of_gives (Change.gives_pure.mpr ⟨rfl, rfl⟩) ⟨hown, htables⟩

theorem settleRounds_of_quiet {first : List HookRun} {slack rounds : Nat} (hfirst : (settleRound slack r).Gives d first e)
    (he : e.Quiet) (hrounds : 2 ≤ rounds) : (settleRounds slack r rounds).Gives d first e := by
  obtain ⟨n, rfl⟩ := Nat.exists_eq_add_of_le' hrounds
  refine gives_settleRounds.mpr ⟨n + 1, rfl, ?_⟩
  by_cases hnone : first = []
  · subst hnone
    exact Or.inl ⟨hfirst, rfl⟩
  · exact Or.inr ⟨first, e, [], hnone, hfirst, he.settleRounds (Nat.succ_pos n), by simp⟩

/-- A database with built-in behaviors only is settled by its first round and has nothing to run in a
    second one, or else its first round ends with the error of an archive. Neither comes from a limit. -/
theorem settles_in_two_rounds (hd : d.OnlyBuiltin r) (slack : Nat) {rounds : Nat} (hrounds : 2 ≤ rounds) :
    (∃ first e, (settleRound slack r).Gives d first e ∧ e.Quiet ∧ (settleRound slack r).Gives e [] e ∧
        (settleRounds slack r rounds).Gives d first e) ∨
      ∃ err, (settleRound slack r d).result = .error err ∧ (settleRounds slack r rounds d).result = .error err ∧
        Archivable.Refuses err ∧ ∀ f, err ≠ unsettled f := by
  rcases settleRound_quiets hd slack with ⟨first, e, hfirst, he⟩ | ⟨err, herr, hrefuses⟩
  · exact Or.inl ⟨first, e, hfirst, he, he.settleRound, settleRounds_of_quiet hfirst he hrounds⟩
  · obtain ⟨n, rfl⟩ := Nat.exists_eq_add_of_le' hrounds
    exact Or.inr ⟨err, herr, Change.result_bind_error herr, hrefuses, hrefuses.ne_unsettled⟩

/-- Two behaviors that go to every table which takes them; one table has an archive of another name. -/
def granary : Database where
  name := "granary"
  tables :=
    [{ name := "sack"
       columns := [{ name := "id", domain := { type := .integer }, primaryKey := true }]
       behaviors :=
         [{ name := "archivable"
            id := "husks"
            parameters := Dictionary.ofList [("archive_table", "husk")]
            table := some "sack" }] },
     { name := "mill"
       columns := [{ name := "id", domain := { type := .integer }, primaryKey := true }]
       behaviors := [{ name := "timestampable", id := "times", table := some "mill", executed := true }] }]
  behaviors :=
    [{ name := "archivable", id := "keep", parameters := Dictionary.ofList Archivable.plugin.defaults },
      { name := "timestampable", id := "times", parameters := Dictionary.ofList Timestampable.plugin.defaults }]

def granaryRuns : List HookRun :=
  [.database "keep", .database "times", .table "sack" "husks", .table "sack" "times", .table "mill" "keep"]

theorem settles_in_two_rounds_granary : granary.OnlyBuiltin .builtin ∧ 2 ≤ 2 ∧
    ∃ e, (settleRound 0 .builtin).Gives granary granaryRuns e ∧ e.Quiet ∧ (settleRound 0 .builtin).Gives e [] e ∧
      (settleRounds 0 .builtin 2).Gives granary granaryRuns e := by
  have hkeep : Registry.builtin.IsBuiltin "archivable" := Or.inr rfl
  have htimes : Registry.builtin.IsBuiltin "timestampable" := Or.inl rfl
  have hd : granary.OnlyBuiltin .builtin :=
    ⟨by decide, by decide, by simp [granary, hkeep, htimes], by simp [granary, hkeep, htimes]⟩
  have hruns : (settleRound 0 .builtin).Gives granary granaryRuns (settleRound 0 .builtin granary).state := ⟨rfl, rfl⟩
  refine ⟨hd, Nat.le_refl 2, ?_⟩
  rcases settles_in_two_rounds hd 0 (Nat.le_refl 2) with ⟨first, e, hfirst, hrest⟩ | ⟨err, herr, -⟩
  · obtain ⟨rfl, rfl⟩ := hfirst.unique hruns
    exact ⟨_, hruns, hrest⟩
  · rw [hruns.1] at herr
    cases herr

end Database

end Schemata
