import Schemata.Plugin.Builtin
import Schemata.Proofs.DatabaseGrowth
import Schemata.Proofs.Settle

/-!
# Hooks that keep names distinct

Running behaviors keeps each condition of `Schemata.Proofs.Names` that the hooks keep: what is done
around the hooks touches nothing but behaviors. The built-in hooks keep all of them: one extends a table
by plain columns, the other appends a table without keys and behaviors.
-/

namespace Schemata

namespace Database
variable {d e : Database} {w : Unit}

/-! ### What is done around hooks -/

/-- A database with neither behaviors of its own nor on tables. -/
def withoutBehaviors (d : Database) : Database :=
  { d with behaviors := [], tables := d.tables.map fun t => { t with behaviors := [] } }

theorem spread_withoutBehaviors {b : Behavior} (h : (spread b).Gives d w e) :
    e.withoutBehaviors = d.withoutBehaviors := by
  obtain ⟨us, rfl, hus⟩ := gives_spread h
  have htables : us.map (fun t => { t with behaviors := [] }) = d.tables.map fun t => { t with behaviors := [] } := by
    refine map_eq_of_forall₂ hus fun t u htu => ?_
    rcases htu with rfl | ⟨rfl, -⟩ <;> rfl
  simp only [withoutBehaviors, htables]

theorem mark_withoutBehaviors (k : HookRun) (d : Database) : (d.mark k).withoutBehaviors = d.withoutBehaviors := by
  cases k with
  | database id => rfl
  | table name id =>
    have htables := map_modifyFirst (p := fun t : Table => t.name == name)
      (f := (·.modifyBehavior id ({ · with executed := true }))) (g := fun t : Table => { t with behaviors := [] })
      (fun _ => rfl) d.tables
    simp only [withoutBehaviors, mark, modifyTable, htables]

theorem distinctNames_withoutBehaviors : d.withoutBehaviors.DistinctNames ↔ d.DistinctNames := by
  have hnames : d.withoutBehaviors.tableNames = d.tableNames := by simp [withoutBehaviors, tableNames, Function.comp_def]
  constructor
  · rintro ⟨htables, hin⟩
    refine ⟨hnames ▸ htables, fun t ht => ?_⟩
    obtain ⟨hcols, hkeys⟩ := hin _ (List.mem_map.mpr ⟨t, ht, rfl⟩)
    exact ⟨hcols, hkeys⟩
  · rintro ⟨htables, hin⟩
    refine ⟨hnames ▸ htables, fun u hu => ?_⟩
    obtain ⟨t, ht, rfl⟩ := List.mem_map.mp hu
    exact ⟨(hin t ht).columns, (hin t ht).foreignKeys⟩

theorem spread_distinctNames {b : Behavior} (h : (spread b).Gives d w e) (hd : d.DistinctNames) : e.DistinctNames :=
  distinctNames_withoutBehaviors.mp (spread_withoutBehaviors h ▸ distinctNames_withoutBehaviors.mpr hd)

theorem mark_distinctNames (k : HookRun) (hd : d.DistinctNames) : (d.mark k).DistinctNames :=
  distinctNames_withoutBehaviors.mp (mark_withoutBehaviors k d ▸ distinctNames_withoutBehaviors.mpr hd)

theorem ownsKeys_withoutBehaviors : d.withoutBehaviors.OwnsKeys ↔ d.OwnsKeys := by
  simp [OwnsKeys, withoutBehaviors]

theorem spread_distinctBehaviors {b : Behavior} (h : (spread b).Gives d w e) (hd : d.DistinctBehaviors) :
    e.DistinctBehaviors := by
  obtain ⟨us, rfl, hus⟩ := gives_spread h
  refine ⟨hd.own, fun u hu => ?_⟩
  obtain ⟨i, hi⟩ := List.getElem?_of_mem hu
  obtain ⟨t, ht, htu⟩ := forall₂_getElem? hus hi
  have hdt := hd.inTables t (List.mem_of_getElem? ht)
  rcases htu with rfl | ⟨rfl, hfree⟩
  · exact hdt
  · rw [List.map_append, List.map_singleton, ← List.concat_eq_append]
    refine hdt.concat fun hmem => ?_
    obtain ⟨c, hc, hid⟩ := List.mem_map.mp hmem
    exact hfree c hc hid

/-- What a mark leaves alone is the same for all behaviors afterwards. -/
theorem map_behaviors_mark {α : Type} {g : Behavior → α} (hg : ∀ b, g { b with executed := true } = g b) (k : HookRun)
    (d : Database) : (d.mark k).behaviors.map g = d.behaviors.map g ∧
      (d.mark k).tables.map (fun t => t.behaviors.map g) = d.tables.map fun t => t.behaviors.map g := by
  cases k with
  | database id => exact ⟨map_modifyFirst hg _, rfl⟩
  | table name id => exact ⟨rfl, map_modifyFirst (fun t => map_modifyFirst hg t.behaviors) _⟩

theorem mark_distinctBehaviors (k : HookRun) (hd : d.DistinctBehaviors) : (d.mark k).DistinctBehaviors := by
  obtain ⟨hown, htables⟩ := map_behaviors_mark (g := (·.id)) (fun _ => rfl) k d
  exact ⟨hown ▸ hd.own, forall_of_map_eq (P := List.Nodup) htables hd.inTables⟩

end Database

namespace Registry
variable {r : Registry} {P : Database → Prop}

/-! ### Conditions that all the runs keep -/

theorem HooksKeep.settles (hr : r.HooksKeep P) (hspread : ∀ {b d e}, (Database.spread b).Gives d () e → P d → P e)
    (hmark : ∀ k d, P d → P (d.mark k)) : r.Settles fun d e => P d → P e where
  toHooksObey := hr
  refl := fun _ => id
  trans := fun h h' => h' ∘ h
  spread := hspread
  mark := hmark

/-- A condition that has nothing to do with behaviors. -/
theorem HooksKeep.settles_of_iff (hr : r.HooksKeep P) (hP : ∀ {d}, P d.withoutBehaviors ↔ P d) :
    r.Settles fun d e => P d → P e :=
  hr.settles
    (fun h hd => hP.mp (Database.spread_withoutBehaviors h ▸ hP.mpr hd))
    (fun k d hd => hP.mp (Database.mark_withoutBehaviors k d ▸ hP.mpr hd))

end Registry

/-! ### The built-in hooks -/

namespace Archivable
variable {t u : Table} {b : Behavior}

theorem addPlainIndices_indices {us : List Index} (h : addPlainIndices t us = .ok u) : u = { t with indices := u.indices } := by
  induction us generalizing t with
  | nil =>
    cases h
    rfl
  | cons i us ih =>
    unfold addPlainIndices at h
    split at h
    · rename_i v hv
      rw [ih h, Table.addMissingIndex_indices hv]
    · cases h

theorem withoutAutoIncrement_eq (t : Table) :
    ∃ cs, withoutAutoIncrement t = { t with columns := cs } ∧ cs.map (·.name) = t.columns.map (·.name) := by
  -- Of any names, since the table changes along the fold.
  have hall : ∀ (names : List String) (t : Table), ∃ cs,
      names.foldl (fun t name => t.modifyColumn name ({ · with autoIncrement := false })) t = { t with columns := cs } ∧
        cs.map (·.name) = t.columns.map (·.name) := by
    intro names
    induction names with
    | nil => exact fun t => ⟨t.columns, rfl, rfl⟩
    | cons name names ih =>
      intro t
      obtain ⟨cs, hcs, hnames⟩ := ih (t.modifyColumn name ({ · with autoIncrement := false }))
      refine ⟨cs, hcs, hnames.trans ?_⟩
      exact map_modifyFirst (f := fun c : Column => { c with autoIncrement := false }) (fun _ => rfl) t.columns
  exact hall _ t

theorem addArchivedColumn_eq (h : addArchivedColumn t b = .ok u) : t.Extends u := by
  unfold addArchivedColumn at h
  split at h
  · split at h
    · cases h
      exact .refl _
    · obtain ⟨hfresh, rfl⟩ := Table.addColumn_eq_ok.mp h
      exact .addColumn ⟨rfl, rfl, rfl⟩ hfresh
  · cases h
    exact .refl _

/-- An archive has its name, distinct columns where its source has, and neither keys nor behaviors. -/
theorem archive_eq_ok {source : Table} {name : String} (h : archive source name b = .ok t) :
    t.name = name ∧ t.foreignKeys = [] ∧ t.behaviors = [] ∧
      ((source.columns.map (·.name)).Nodup → (t.columns.map (·.name)).Nodup) := by
  simp only [archive, bind, Except.bind] at h
  split at h
  · cases h
  rename_i v hv
  have hidx := addPlainIndices_indices hv
  obtain ⟨cs, hcs, hnames⟩ := withoutAutoIncrement_eq v
  have hext := addArchivedColumn_eq h
  rw [hcs, hidx] at hext
  refine ⟨?_, ?_, ?_, fun hd => hext.distinct ?_⟩
  · have := congrArg Table.name hext.fixed
    exact this
  · exact List.forall₂_nil_left_iff.mp hext.foreignKeys
  · have := congrArg Table.behaviors hext.fixed
    exact this
  · rw [hnames, hidx]
    show (source.bare.columns.map (·.name)).Nodup
    rw [Table.bare_columnNames]
    exact hd

/-- An archive is in the namespace of its source. -/
theorem nameSpace_archive {source : Table} {name : String} (h : archive source name b = .ok t) :
    t.nameSpace = source.nameSpace := by
  simp only [archive, bind, Except.bind] at h
  split at h
  · cases h
  rename_i v hv
  have hext := addArchivedColumn_eq h
  obtain ⟨cs, hcs, -⟩ := withoutAutoIncrement_eq v
  rw [hcs, addPlainIndices_indices hv] at hext
  have := congrArg Table.nameSpace hext.fixed
  exact this

theorem gives_tableHook {d e : Database} {name : String} {w : Unit} (h : (tableHook b name).Gives d w e) :
    e = d ∨ ∃ source t, source ∈ d.tables ∧ d.hasTable t.name = false ∧ archive source t.name b = .ok t ∧
      e = { d with tables := d.tables ++ [t] } := by
  simp only [tableHook, Change.gives_bind, Change.gives_get] at h
  obtain ⟨_, _, ⟨rfl, rfl⟩, h⟩ := h
  split at h
  · exact Or.inl (Change.gives_pure.mp h).2
  · split at h
    · exact absurd h Change.not_gives_fail
    · rename_i source hsource
      simp only [Change.gives_bind, Change.gives_ofExcept, Change.gives_report, Change.gives_attempt] at h
      obtain ⟨t, _, ⟨ht, rfl⟩, _, _, rfl, hadd⟩ := h
      unfold Database.addTable at hadd
      split at hadd
      · cases hadd
      · rename_i hfree
        cases hadd
        obtain ⟨hname, -⟩ := archive_eq_ok ht
        exact Or.inr ⟨source, t, List.mem_of_find?_eq_some hsource, by simpa using hfree, hname.symm ▸ ht, rfl⟩

end Archivable

namespace Timestampable
variable {d e : Database} {b : Behavior} {name : String} {w : Unit}

theorem extends_addTimestamp {t u : Table} {column : String} (h : (addTimestamp column).Gives t w u) : t.Extends u := by
  simp only [addTimestamp, Change.gives_bind, Change.gives_get] at h
  obtain ⟨_, _, ⟨rfl, rfl⟩, h⟩ := h
  split at h
  · obtain ⟨-, rfl⟩ := Change.gives_pure.mp h
    exact .refl _
  · simp only [Change.gives_bind, Change.gives_report, Change.gives_attempt] at h
    obtain ⟨_, _, rfl, hadd⟩ := h
    obtain ⟨hfresh, rfl⟩ := Table.addColumn_eq_ok.mp hadd
    exact .addColumn ⟨rfl, rfl, rfl⟩ hfresh

theorem grows_tableHook (h : (tableHook b name).Gives d w e) : d.Grows e := by
  simp only [tableHook, Change.gives_bind, Change.gives_get] at h
  obtain ⟨_, _, ⟨rfl, rfl⟩, h⟩ := h
  split at h
  · refine (Database.GrowsAt.of_editAt (fun t u htu => .of_extends ?_) h).grows
    exact htu.forEach Table.Extends.refl Table.Extends.trans fun column _ t u => extends_addTimestamp
  · exact absurd h Change.not_gives_fail

end Timestampable

theorem Dictionary.mem_of_get?_ofList {β : Type} {entries : List (String × β)} {key : String} {value : β}
    (h : (ofList entries).get? key = some value) : (key, value) ∈ entries := by
  -- A value comes from an entry or was there before the fold.
  have hfold : ∀ (es : List (String × β)) (d : Dictionary β),
      (es.foldl (fun d e => d.insert e.1 e.2) d).get? key = some value →
        (key, value) ∈ es ∨ d.get? key = some value := by
    intro es
    induction es with
    | nil => exact fun d h => Or.inr h
    | cons e es ih =>
      intro d h
      rcases ih _ h with h | h
      · exact Or.inl (List.mem_cons_of_mem _ h)
      · rw [get?_insert] at h
        split at h
        · rename_i hkey
          cases h
          exact Or.inl (hkey ▸ List.mem_cons_self)
        · exact Or.inr h
  rcases hfold entries {} h with h | h
  · exact h
  · cases h

/-- The hooks of a plugin relate the databases before and after by `R`. -/
structure Plugin.Obeys (plugin : Plugin) (R : Database → Database → Prop) : Prop where
  database : ∀ hook, plugin.databaseHook = some hook → ∀ {b d e}, (hook b).Gives d () e → R d e
  table : ∀ hook, plugin.tableHook = some hook → ∀ {b name d e}, (hook b name).Gives d () e → R d e

namespace Registry
variable {R : Database → Database → Prop}

theorem hooksObey_ofList {plugins : List (String × Plugin)} (h : ∀ q ∈ plugins, q.2.Obeys R) :
    HooksObey (Dictionary.ofList plugins) R where
  database := fun hhook hgives => by
    obtain ⟨plugin, hget, hp⟩ := Option.bind_eq_some_iff.mp hhook
    exact (h _ (Dictionary.mem_of_get?_ofList hget)).database _ hp hgives
  table := fun hhook hgives => by
    obtain ⟨plugin, hget, hp⟩ := Option.bind_eq_some_iff.mp hhook
    exact (h _ (Dictionary.mem_of_get?_ofList hget)).table _ hp hgives

/-- The built-in hooks let tables grow, or append an archive. -/
theorem builtin_hooksObey (refl : ∀ d, R d d) (grow : ∀ {d e}, d.Grows e → R d e)
    (append : ∀ {d : Database} {source t : Table} {b : Behavior}, source ∈ d.tables → d.hasTable t.name = false →
      Archivable.archive source t.name b = .ok t → R d { d with tables := d.tables ++ [t] }) :
    builtin.HooksObey R := by
  refine hooksObey_ofList fun q hq => ?_
  rcases List.mem_pair.mp hq with rfl | rfl
  · constructor
    · rintro hook ⟨⟩
    · rintro hook ⟨⟩ b name d e h
      exact grow (Timestampable.grows_tableHook h)
  · constructor
    · rintro hook ⟨⟩
    · rintro hook ⟨⟩ b name d e h
      rcases Archivable.gives_tableHook h with rfl | ⟨source, t, hsource, hfree, ht, rfl⟩
      · exact refl _
      · exact append hsource hfree ht

end Registry

namespace Database
variable {d e : Database} {t source : Table}

/-! ### What the built-in hooks keep -/

theorem DistinctNames.append (hd : d.DistinctNames) (ht : d.hasTable t.name = false) (hn : t.DistinctNames) :
    DistinctNames { d with tables := d.tables ++ [t] } where
  tables := tableNames_append hd.tables ht
  inTables := forall_mem_append_singleton hd.inTables hn

theorem Grows.ownsKeys (h : d.Grows e) (hd : d.OwnsKeys) : e.OwnsKeys := by
  intro u hu l hl
  obtain ⟨i, hi⟩ := List.getElem?_of_mem hu
  obtain ⟨t, ht, hg⟩ := forall₂_getElem? h.tables hi
  obtain ⟨j, hj⟩ := List.getElem?_of_mem hl
  obtain ⟨k, hk, rs, rfl⟩ := forall₂_getElem? (Table.Extends.foreignKeys hg) hj
  rw [hg.name]
  exact hd t (List.mem_of_getElem? ht) k (List.mem_of_getElem? hk)

theorem Grows.distinctBehaviors (h : d.Grows e) (hd : d.DistinctBehaviors) : e.DistinctBehaviors where
  own := h.behaviors ▸ hd.own
  inTables := fun u hu => by
    obtain ⟨i, hi⟩ := List.getElem?_of_mem hu
    obtain ⟨t, ht, hg⟩ := forall₂_getElem? h.tables hi
    rw [hg.behaviors]
    exact hd.inTables t (List.mem_of_getElem? ht)

end Database

namespace Registry

theorem builtin_keeps_distinctNames : builtin.HooksKeep Database.DistinctNames :=
  builtin_hooksObey (fun _ => id) (fun h => h.distinctNames) fun hsource hfree ht hd => by
    obtain ⟨-, hkeys, -, hcols⟩ := Archivable.archive_eq_ok ht
    exact hd.append hfree ⟨hcols (hd.inTables _ hsource).columns, by simp [hkeys]⟩

theorem builtin_keeps_ownsKeys : builtin.HooksKeep Database.OwnsKeys :=
  builtin_hooksObey (fun _ => id) (fun h => h.ownsKeys) fun _ _ ht hd u hu k hk => by
    obtain ⟨-, hkeys, -, -⟩ := Archivable.archive_eq_ok ht
    rcases List.mem_append.mp hu with hu | hu
    · exact hd u hu k hk
    · rw [List.mem_singleton.mp hu, hkeys] at hk
      cases hk

theorem builtin_keeps_distinctBehaviors : builtin.HooksKeep Database.DistinctBehaviors :=
  builtin_hooksObey (fun _ => id) (fun h => h.distinctBehaviors) fun _ _ ht hd =>
    ⟨hd.own, fun u hu => by
      obtain ⟨-, -, hbehaviors, -⟩ := Archivable.archive_eq_ok ht
      rcases List.mem_append.mp hu with hu | hu
      · exact hd.inTables u hu
      · rw [List.mem_singleton.mp hu, hbehaviors]
        exact List.nodup_nil⟩

theorem builtin_keeps_distinct : builtin.HooksKeep Database.Distinct where
  database := fun hhook h hd =>
    ⟨builtin_keeps_distinctNames.database hhook h hd.names, builtin_keeps_distinctBehaviors.database hhook h hd.behaviors⟩
  table := fun hhook h hd =>
    ⟨builtin_keeps_distinctNames.table hhook h hd.names, builtin_keeps_distinctBehaviors.table hhook h hd.behaviors⟩

theorem HooksKeep.and {r : Registry} {P Q : Database → Prop} (hP : r.HooksKeep P) (hQ : r.HooksKeep Q) :
    r.HooksKeep fun d => P d ∧ Q d where
  database := fun hhook h hd => ⟨hP.database hhook h hd.1, hQ.database hhook h hd.2⟩
  table := fun hhook h hd => ⟨hP.table hhook h hd.1, hQ.table hhook h hd.2⟩

end Registry

end Schemata
