import Schemata.Proofs.Archive
import Schemata.Proofs.Finalize
import Schemata.Proofs.Rounds

/-!
# What behaviors leave behind

A built-in behavior that has run on a table leaves what its code is about: the columns for the times, or the
table for the archive (`Database.Serves`). Tables and columns stay once they are there and a behavior is marked
right after it ran, so behaviors that are marked are served (`Database.Serving`).
-/

namespace Schemata

/-! ### Tables and columns stay -/

namespace Database
variable {d e : Database} {es : List Event} {t u : Table} {b : Behavior} {name : String}

/-- Each table is there afterwards, with its columns and perhaps more. -/
def Widens (d e : Database) : Prop :=
  ∀ t ∈ d.tables, ∃ u ∈ e.tables, u.name = t.name ∧ ∀ c, t.hasColumn c = true → u.hasColumn c = true

theorem Widens.of_forall₂ (h : List.Forall₂ (fun t u => u.name = t.name ∧ u.columns = t.columns) d.tables e.tables) :
    d.Widens e := by
  intro t ht
  obtain ⟨i, hi⟩ := List.getElem?_of_mem ht
  obtain ⟨u, hu, hname, hcolumns⟩ := getElem?_of_forall₂ h hi
  exact ⟨u, List.mem_of_getElem? hu, hname, fun c hc => by rwa [Table.hasColumn, hcolumns]⟩

theorem Gains.widens (h : d.Gains es e) : d.Widens e := by
  intro t ht
  obtain ⟨i, hi⟩ := List.getElem?_of_mem ht
  obtain ⟨u, hu, hgains⟩ := h.tables i t hi
  refine ⟨u, List.mem_of_getElem? hu, hgains.name, fun name hname => ?_⟩
  obtain ⟨c, hc, hcname⟩ := List.any_eq_true.mp hname
  obtain ⟨c', hc', heq⟩ := List.mem_map.mp (hgains.kept (List.mem_map_of_mem hc))
  exact List.any_eq_true.mpr ⟨c', hc', (congrArg (fun x => x.1 == name) heq).trans hcname⟩

theorem hasTable_iff : d.hasTable name = true ↔ ∃ t ∈ d.tables, t.name = name := by
  simp [hasTable]

theorem Widens.hasTable (h : d.Widens e) (hd : d.hasTable name = true) : e.hasTable name = true := by
  obtain ⟨t, ht, rfl⟩ := hasTable_iff.mp hd
  obtain ⟨u, hu, hname, -⟩ := h t ht
  exact hasTable_iff.mpr ⟨u, hu, hname⟩

/-- The table of a name is the only one. -/
theorem eq_of_name (hd : d.tableNames.Nodup) (ht : t ∈ d.tables) (hu : u ∈ d.tables) (h : t.name = u.name) : t = u :=
  List.inj_on_of_nodup_map hd ht hu h

/-! ### What the code of a behavior is about -/

/-- The table has the columns of its timestampable behavior, and the database the archive of an archivable one. -/
structure Serves (d : Database) (t : Table) (b : Behavior) : Prop where
  times : b.name = "timestampable" → ∀ c ∈ Timestampable.timestampColumns b, t.hasColumn c = true
  archive : b.name = "archivable" → d.hasTable (Archivable.archiveName b t.name) = true

theorem Serves.mono (h : d.Serves t b) (hname : u.name = t.name)
    (hcolumns : ∀ c, t.hasColumn c = true → u.hasColumn c = true)
    (htables : ∀ name, d.hasTable name = true → e.hasTable name = true) : e.Serves u b where
  times hb c hc := hcolumns c (h.times hb c hc)
  archive hb := hname ▸ htables _ (h.archive hb)

/-- Names and ids are distinct, and behaviors that have run are served. -/
structure Serving (d : Database) : Prop where
  names : d.tableNames.Nodup
  ids : d.DistinctBehaviors
  served : ∀ t ∈ d.tables, ∀ b ∈ t.behaviors, b.executed = true → d.Serves t b

/-- Nothing is taken away, and no behaviors are attached that have run. -/
theorem Serving.widens (h : d.Serving) (hw : d.Widens e) (hnames : e.tableNames.Nodup) (hids : e.DistinctBehaviors)
    (hfrom : ∀ u ∈ e.tables, ∀ b ∈ u.behaviors, b.executed = true → ∃ t ∈ d.tables, t.name = u.name ∧ b ∈ t.behaviors) :
    e.Serving where
  names := hnames
  ids := hids
  served u hu b hb hran := by
    obtain ⟨t, ht, hname, hbt⟩ := hfrom u hu b hb hran
    obtain ⟨u', hu', hname', hcolumns⟩ := hw t ht
    obtain rfl := eq_of_name hnames hu' hu (hname'.trans hname)
    exact (h.served t ht b hbt hran).mono hname' hcolumns fun _ => hw.hasTable

end Database

/-! ### What a hook leaves -/

namespace Timestampable
variable {d e : Database} {b : Behavior} {w : Unit}

theorem hasColumn_addTimestamp {t u : Table} {column : String} (h : (addTimestamp column).Gives t w u) :
    u.hasColumn column = true := by
  simp only [addTimestamp, Change.gives_bind, Change.gives_get] at h
  obtain ⟨_, _, ⟨rfl, rfl⟩, h⟩ := h
  split at h
  · rename_i hcolumn
    obtain ⟨-, rfl⟩ := Change.gives_pure.mp h
    exact hcolumn
  · simp only [Change.gives_bind, Change.gives_report, Change.gives_attempt] at h
    obtain ⟨_, _, rfl, hadd⟩ := h
    obtain ⟨-, rfl⟩ := Table.addColumn_eq_ok.mp hadd
    simp [Table.hasColumn]

theorem hasColumn_addTimestamps {t u : Table} {columns : List String}
    (h : (Change.forEach addTimestamp columns).Gives t w u) : ∀ c ∈ columns, u.hasColumn c = true := by
  induction columns generalizing t with
  | nil => exact fun c hc => absurd hc List.not_mem_nil
  | cons column columns ih =>
    obtain ⟨v, hv, hrest⟩ := Change.gives_forEach_cons.mp h
    have hext : v.Extends u :=
      hrest.forEach Table.Extends.refl Table.Extends.trans fun _ _ _ _ => extends_addTimestamp
    exact List.forall_mem_cons.mpr ⟨hext.hasColumn (hasColumn_addTimestamp hv), ih hrest⟩

/-- After the hook the table has the columns for the times. -/
theorem hasColumn_tableHook {name : String} (h : (tableHook b name).Gives d w e) :
    ∃ u ∈ e.tables, u.name = name ∧ ∀ c ∈ timestampColumns b, u.hasColumn c = true := by
  simp only [tableHook, Change.gives_bind, Change.gives_get] at h
  obtain ⟨_, _, ⟨rfl, rfl⟩, h⟩ := h
  split at h
  · rename_i pos hpos
    obtain ⟨hlt, hname, -⟩ := List.findIdx?_eq_some_iff_getElem.mp hpos
    obtain ⟨u, hu, rfl⟩ := (Database.gives_editAt_of_getElem? (List.getElem?_eq_getElem hlt)).mp h
    have hext : Table.Extends _ u :=
      hu.forEach Table.Extends.refl Table.Extends.trans fun _ _ _ _ => extends_addTimestamp
    have hkept := congrArg Table.name hext.fixed
    exact ⟨u, List.mem_set hlt u, hkept.trans (beq_iff_eq.mp hname), hasColumn_addTimestamps hu⟩
  · exact absurd h Change.not_gives_fail

end Timestampable

namespace Archivable
variable {d e : Database} {b : Behavior} {name : String} {w : Unit}

/-- After the hook the archive is there. -/
theorem hasTable_tableHook (h : (tableHook b name).Gives d w e) : e.hasTable (archiveName b name) = true := by
  simp only [tableHook, Change.gives_bind, Change.gives_get] at h
  obtain ⟨_, _, ⟨rfl, rfl⟩, h⟩ := h
  split at h
  · rename_i hthere
    exact (Change.gives_pure.mp h).2 ▸ hthere
  · split at h
    · exact absurd h Change.not_gives_fail
    · simp only [Change.gives_bind, Change.gives_ofExcept, Change.gives_report, Change.gives_attempt] at h
      obtain ⟨t, _, ⟨ht, rfl⟩, _, _, rfl, hadd⟩ := h
      unfold Database.addTable at hadd
      split at hadd
      · cases hadd
      · cases hadd
        exact Database.hasTable_iff.mpr ⟨t, List.mem_append_right _ List.mem_cons_self, (archive_eq_ok ht).1⟩

end Archivable

namespace Registry
variable {b : Behavior}

theorem builtin_timestampable (h : b.name = "timestampable") :
    builtin.tableHook? b = some Timestampable.tableHook := by
  rw [tableHook?, h]
  rfl

theorem builtin_archivable (h : b.name = "archivable") : builtin.tableHook? b = some Archivable.tableHook := by
  rw [tableHook?, h]
  rfl

end Registry

/-! ### Running behaviors -/

namespace Database
variable {d e m : Database} {t : Table} {b : Behavior} {run : Behavior → String → Edit Database Unit} {name key : String}
variable {ran : Bool} {w : Unit}

/-- The built-in hooks serve their behavior. -/
theorem serves_hook (hhook : Registry.builtin.tableHook? b = some run) (h : (run b name).Gives d w e)
    (hnames : e.tableNames.Nodup) (ht : t ∈ e.tables) (hname : t.name = name) : e.Serves t b where
  times hb := by
    rw [Registry.builtin_timestampable hb] at hhook
    cases hhook
    obtain ⟨u, hu, huname, hcolumns⟩ := Timestampable.hasColumn_tableHook h
    obtain rfl := eq_of_name hnames hu ht (huname.trans hname.symm)
    exact hcolumns
  archive hb := by
    rw [Registry.builtin_archivable hb] at hhook
    cases hhook
    exact hname ▸ Archivable.hasTable_tableHook h

/-- Without a hook there is nothing to serve. -/
theorem serves_of_none (h : Registry.builtin.tableHook? b = none) : d.Serves t b where
  times hb := by
    rw [Registry.builtin_timestampable hb] at h
    cases h
  archive hb := by
    rw [Registry.builtin_archivable hb] at h
    cases h

theorem attachesNone_hook (hhook : Registry.builtin.tableHook? b = some run) (h : (run b name).Gives d w e) :
    d.AttachesNone e := by
  obtain ⟨plugin, hget, hplugin⟩ := Option.bind_eq_some_iff.mp hhook
  rcases plugin_of_builtin hget with rfl | rfl <;> cases hplugin
  · exact Timestampable.attachesNone_tableHook h
  · exact Archivable.attachesNone_tableHook h

theorem widens_hook (hhook : Registry.builtin.tableHook? b = some run) (h : (run b name).Gives d w e) :
    d.Widens e := by
  have hgains : d.Gains (run b name d).log (run b name d).state := (steps_hook hhook name d).lift gains_trail gains_step
  rw [h.2] at hgains
  exact hgains.widens

theorem Serving.attachesNone (hd : d.Serving) (hw : d.Widens e) (h : d.AttachesNone e) : e.Serving :=
  hd.widens hw (h.names hd.names) (h.ids hd.ids) fun u hu b hb _ => h.inTables u hu b hb

theorem Serving.hook (hd : d.Serving) (hhook : Registry.builtin.tableHook? b = some run)
    (h : (run b name).Gives d w e) : e.Serving :=
  hd.attachesNone (widens_hook hhook h) (attachesNone_hook hhook h)

theorem Serving.spread (hd : d.Serving) (h : (Database.spread b).Gives d w e) : e.Serving := by
  have hnames := (attaches_spread h).names hd.names
  have hids := spread_distinctBehaviors h hd.ids
  obtain ⟨us, rfl, hus⟩ := gives_spread h
  have hsame : List.Forall₂ (fun t u : Table => u.name = t.name ∧ u.columns = t.columns) d.tables us := by
    refine hus.imp fun t u htu => ?_
    rcases htu with rfl | ⟨rfl, -⟩ <;> exact ⟨rfl, rfl⟩
  refine hd.widens (.of_forall₂ hsame) hnames hids fun u hu c hc hran => ?_
  obtain ⟨i, hi⟩ := List.getElem?_of_mem hu
  obtain ⟨t, ht, htu⟩ := forall₂_getElem? hus hi
  rcases htu with rfl | ⟨rfl, -⟩
  · exact ⟨u, List.mem_of_getElem? ht, rfl, hc⟩
  · -- The copy has not run.
    rcases List.mem_append.mp hc with hc | hc
    · exact ⟨t, List.mem_of_getElem? ht, rfl, hc⟩
    · obtain rfl := List.mem_singleton.mp hc
      cases hran

/-- A behavior of a table that is served may be marked. -/
theorem Serving.mark (hd : d.Serving)
    (hserved : ∀ t ∈ d.tables, t.name = name → ∀ b ∈ t.behaviors, b.id = key → d.Serves t b) :
    (d.mark (.table name key)).Serving where
  names := tableNames_mark _ d ▸ hd.names
  ids := mark_distinctBehaviors _ hd.ids
  served := by
    have hsame : List.Forall₂ (fun t u : Table => u.name = t.name ∧ u.columns = t.columns) d.tables
        (d.mark (.table name key)).tables :=
      forall₂_modifyFirst (fun _ => ⟨rfl, rfl⟩) fun _ _ _ => ⟨rfl, rfl⟩
    have htables : ∀ name', d.hasTable name' = true → (d.mark (.table name key)).hasTable name' = true :=
      fun _ => (Widens.of_forall₂ hsame).hasTable
    intro u hu b hb hran
    rw [Database.mark, modifyTable, modifyFirst_eq_map hd.names] at hu
    obtain ⟨t, ht, rfl⟩ := List.mem_map.mp hu
    by_cases hname : t.name = name
    · rw [if_pos hname] at hb ⊢
      rw [Table.modifyBehavior, modifyFirst_eq_map (hd.ids.inTables t ht)] at hb
      obtain ⟨c, hc, rfl⟩ := List.mem_map.mp hb
      by_cases hid : c.id = key
      · rw [if_pos hid]
        have hserves := hserved t ht hname c hc hid
        exact ⟨hserves.times, fun harchivable => htables _ (hserves.archive harchivable)⟩
      · rw [if_neg hid] at hran ⊢
        exact (hd.served t ht c hc hran).mono rfl (fun _ => id) htables
    · rw [if_neg hname] at hb ⊢
      exact (hd.served t ht b hb hran).mono rfl (fun _ => id) htables

theorem Serving.runBehavior (hd : d.Serving) (h : (Database.runBehavior .builtin key).Gives d ran e) : e.Serving := by
  obtain ⟨-, -, rfl⟩ | ⟨-, x, m, -, hm, rfl⟩ := gives_runBehavior h
  · exact hd
  · have hserving : m.Serving := by
      rcases hm with ⟨hook, hhook, -⟩ | hm | rfl
      · rw [builtin_databaseHook?] at hhook
        cases hhook
      · exact hd.spread hm
      · exact hd
    exact ⟨hserving.names, mark_distinctBehaviors _ hserving.ids, fun t ht b hb hran =>
      (hserving.served t ht b hb hran).mono rfl (fun _ => id) fun _ => id⟩

theorem Serving.runTableBehavior {place : String × String} (hd : d.Serving)
    (h : (Database.runTableBehavior .builtin place).Gives d ran e) : e.Serving := by
  obtain ⟨-, -, rfl⟩ | ⟨-, x, m, hx, hm, rfl⟩ := gives_runTableBehavior h
  · exact hd
  obtain ⟨s, hs, hx⟩ := Option.bind_eq_some_iff.mp hx
  obtain ⟨hsmem, hsname⟩ := (find?_eq_some_iff_of_nodup hd.names).mp hs
  obtain ⟨hxmem, hxid⟩ := (find?_eq_some_iff_of_nodup (hd.ids.inTables s hsmem)).mp hx
  rcases hm with ⟨hook, hhook, hm⟩ | ⟨hnone, rfl⟩
  · have hserving := hd.hook hhook hm
    refine hserving.mark fun t ht hname b hb hid => ?_
    -- The hook attached nothing, so it is the behavior that ran.
    obtain ⟨t', ht', hname', hb'⟩ := (attachesNone_hook hhook hm).inTables t ht b hb
    obtain rfl := eq_of_name hd.names ht' hsmem (hname'.trans (hname.trans hsname.symm))
    obtain rfl := List.inj_on_of_nodup_map (hd.ids.inTables t' ht') hb' hxmem (hid.trans hxid.symm)
    exact serves_hook hhook hm hserving.names ht hname
  · refine hd.mark fun t ht hname b hb hid => ?_
    obtain rfl := eq_of_name hd.names ht hsmem (hname.trans hsname.symm)
    obtain rfl := List.inj_on_of_nodup_map (hd.ids.inTables t ht) hb hxmem (hid.trans hxid.symm)
    exact serves_of_none hnone

/-! ### After finalization -/

section Finalize
variable {limit : Nat} {p : Platform} {runs : List HookRun}

theorem Serving.settleRound (hd : d.Serving) (h : (Database.settleRound limit .builtin).Gives d runs e) : e.Serving := by
  obtain ⟨ids, m, keys, hids, hkeys, -⟩ := gives_settleRound.mp h
  have hown : d.Serving → m.Serving :=
    Worklist.work_rel (R := fun d e => d.Serving → e.Serving) (fun _ => id) (fun h h' => h' ∘ h)
      (fun hrun hd => hd.runBehavior hrun) hids
  have htables : m.Serving → e.Serving :=
    Worklist.work_rel (R := fun d e => d.Serving → e.Serving) (fun _ => id) (fun h h' => h' ∘ h)
      (fun hrun hd => hd.runTableBehavior hrun) hkeys
  exact htables (hown hd)

theorem Serving.settle (hd : d.Serving) (h : (Database.settle limit .builtin).Gives d runs e) : e.Serving := by
  revert hd
  exact settleRounds_induction (motive := fun d _ => d.Serving → e.Serving) (fun hlast hd => hd.settleRound hlast)
    (fun hfirst _ ih hd => ih (hd.settleRound hfirst)) h

theorem Grows.widens (h : d.Grows e) : d.Widens e := by
  intro t ht
  obtain ⟨i, hi⟩ := List.getElem?_of_mem ht
  obtain ⟨u, hu, hg⟩ := getElem?_of_forall₂ h.tables hi
  exact ⟨u, List.mem_of_getElem? hu, hg.name, fun _ => hg.hasColumn⟩

theorem Serving.prepareTables (hd : d.Serving) : d.prepareTables.Serving := by
  have hnames : d.prepareTables.tableNames = d.tableNames := List.map_map
  refine hd.widens (fun t ht => ⟨t.prepare d, List.mem_map_of_mem ht, rfl, fun c hc => ?_⟩) (hnames ▸ hd.names)
    ⟨hd.ids.own, fun u hu => ?_⟩ fun u hu b hb _ => ?_
  · exact (Table.bare_hasColumn t c).trans hc
  · obtain ⟨t, ht, rfl⟩ := List.mem_map.mp hu
    exact hd.ids.inTables t ht
  · obtain ⟨t, ht, rfl⟩ := List.mem_map.mp hu
    exact ⟨t, ht, rfl, hb⟩

/-- After finalization every behavior is served. -/
theorem served_of_finalize (hd : d.Serving) (hnames : d.DistinctNames) (h : (finalize limit .builtin p).Gives d runs e)
    (ht : t ∈ e.tables) (hb : b ∈ t.behaviors) : e.Serves t b := by
  have hquiet : e.Quiet := quiet_of_finalize (P := DistinctNames)
    (Registry.builtin_keeps_distinctNames.settles_of_iff distinctNames_withoutBehaviors) id hnames h
  obtain ⟨m, hm, he⟩ := gives_finalize.mp h
  have hgrows := grows_finalizeTables he
  have hserving := (hd.settle hm).prepareTables.attachesNone hgrows.widens hgrows.attachesNone
  refine hserving.served t ht b hb ?_
  cases hran : b.executed with
  | true => rfl
  | false =>
    have hpending : (t.name, b.id) ∈ e.pendingTableBehaviors :=
      mem_pendingTableBehaviors.mpr ⟨t, ht, rfl, b, hb, hran, rfl⟩
    rw [hquiet.inTables] at hpending
    cases hpending

end Finalize

end Database

end Schemata
