import Schemata.Proofs.BackEdges
import Schemata.Proofs.Hooks
import Schemata.Proofs.TableEdits
import Schemata.Proofs.Trail

/-!
# The steps of finalization

With the built-in plugins finalization is a row of steps, each of which changes one thing and logs at
most one event, and it stays one where an error ends it. So what holds before and after each step holds
of the whole, whether it succeeds or not.
-/

namespace Schemata

open Change

/-! ### Tables -/

/-- An event that names no archive. -/
def Event.IsNoArchive (e : Event) : Prop :=
  ∀ source archive, e ≠ .addingArchive source archive

namespace Table

/-- A step of finalization on one table. A column is added together with the event that names it. -/
inductive Step : Table → List Event → Table → Prop where
  | told {t e} (other : Event.IsNoArchive e) : Step t [e] t
  | column {t u c e} (named : e = .addingTimestamp t.name c.name ∨ e = .addingImplicitColumn t.name c.name)
      (added : t.addColumn c = .ok u) : Step t [e] u
  | index {t u i} (added : t.addIndex i = .ok u) : Step t [] u
  | behavior {t u b} (added : t.addBehavior b = .ok u) : Step t [] u
  | executed (t : Table) (id : String) : Step t [] (t.modifyBehavior id ({ · with executed := true }))
  | complete (t : Table) (key : String) (pairs : List Reference) :
      Step t [] (t.modifyForeignKey key fun k => { k with references := k.references ++ pairs })
  | link (t : Table) (k : ForeignKey) : Step t [] (t.link k)
  | prepare (t : Table) (d : Database) : Step t [] (t.prepare d)
  | dropIdMethod (t : Table) : Step t [] { t with settings := { t.settings with idMethod := some .none } }
  | refer (t : Table) : Step t [] { t with containsForeignKey := t.refersByKey }

theorem steps_addColumn {t : Table} {c : Column} {e : Event}
    (he : e = .addingTimestamp t.name c.name ∨ e = .addingImplicitColumn t.name c.name) :
    (do Change.report e; Change.attempt (·.addColumn c) : Edit Table Unit).Follows (Steps Step) t := by
  unfold Change.Follows
  rw [← Change.bind_eq]
  simp only [Change.bind, Change.report, Change.attempt]
  cases hc : t.addColumn c with
  | error err =>
    refine .single (.told fun source archive => ?_)
    rcases he with rfl | rfl <;> simp
  | ok u => exact .single (.column he hc)

theorem steps_addHeavyIndices (t : Table) : addHeavyIndices.Follows (Steps Step) t := by
  refine .of_get ?_
  split
  · refine .forEach Steps.trail fun names _ u => .of_get ?_
    split
    · exact follows_pure Steps.trail _
    · exact (Steps.attempt fun _ => .index).bind Steps.trail fun _ _ _ => Steps.report (.told fun _ _ => by simp)
  · exact follows_pure Steps.trail _

theorem steps_dropUnusedIdMethod (t : Table) : dropUnusedIdMethod.Follows (Steps Step) t := by
  refine .of_get ?_
  split
  · exact (Steps.report (.told fun _ _ => by simp)).bind Steps.trail fun _ u _ => Steps.modify (.dropIdMethod u)
  · exact follows_pure Steps.trail _

theorem steps_completeKey (key : String) (primaryKey : List Column) (t : Table) :
    (completeKey key primaryKey).Follows (Steps Step) t := by
  refine Follows.bind Steps.trail (.forEach Steps.trail fun c _ u => .of_get ?_) fun _ u _ => ?_
  · dsimp only
    split
    · exact follows_fail Steps.trail _
    · exact steps_addColumn (.inr rfl)
  · exact Steps.modify (.complete u key _)

theorem steps_addKeyIndices (is : List Index) (t : Table) : (Change.forEach addKeyIndex is).Follows (Steps Step) t := by
  refine .forEach Steps.trail fun i _ u => .of_get ?_
  split
  · exact follows_pure Steps.trail _
  · exact (Steps.attempt fun _ => .index).bind Steps.trail fun _ _ _ => Steps.report (.told fun _ _ => by simp)

theorem steps_warnWithoutKey (t : Table) : warnWithoutKey.Follows (Steps Step) t := by
  refine .of_get ?_
  split
  · exact Steps.report (.told fun _ _ => by simp)
  · exact follows_pure Steps.trail _

theorem steps_addTimestamps (columns : List String) (t : Table) :
    (Change.forEach Timestampable.addTimestamp columns).Follows (Steps Step) t := by
  refine .forEach Steps.trail fun column _ u => .of_get ?_
  split
  · exact follows_pure Steps.trail _
  · exact steps_addColumn (.inl rfl)

end Table

/-! ### Databases -/

namespace Database

/-- A step of finalization on a database: steps on one of its tables, or at most one silent step on each of them, or an
    event, an archive of one of the tables, or a behavior of the database that is marked. -/
inductive Step : Database → List Event → Database → Prop where
  | told {d e} (other : Event.IsNoArchive e) : Step d [e] d
  | table {d pos t es u} (here : d.tables[pos]? = some t) (steps : Steps Table.Step t es u) :
      Step d es { d with tables := d.tables.set pos u }
  | tables {d ts} (each : List.Forall₂ (fun t u => u = t ∨ Table.Step t [] u) d.tables ts) :
      Step d [] { d with tables := ts }
  | archive {d name archive b source t} (free : d.hasTable archive = false) (found : d.table? name = some source)
      (copied : Archivable.archive source archive b = .ok t) :
      Step d [.addingArchive name archive] { d with tables := d.tables ++ [t] }
  | executed (d : Database) (id : String) : Step d [] (d.modifyBehavior id ({ · with executed := true }))

variable {pos : Nat}

theorem steps_editAt {c : Edit Table Unit} (hc : ∀ t, c.Follows (Steps Table.Step) t) (d : Database) :
    (editAt pos c).Follows (Steps Step) d := by
  unfold Change.Follows editAt Change.within Change.atPosition
  cases ht : d.tables[pos]? with
  | none => exact .refl d
  | some t => exact .single (.table ht (hc t))

theorem steps_modifyTableAt {f : Table → Table} (hf : ∀ t, Table.Step t [] (f t)) (d : Database) :
    (Change.modify (·.modifyTableAt pos f) : Edit Database Unit).Follows (Steps Step) d := by
  cases ht : d.tables[pos]? with
  | some t =>
    refine Steps.modify ?_
    rw [modifyTableAt, set_eq_modify ht]
    exact .table ht (.single (hf t))
  | none =>
    have hsame : d.modifyTableAt pos f = d := by
      rw [modifyTableAt, List.modify_eq_self (List.getElem?_eq_none_iff.mp ht)]
    exact follows_modify (by rw [hsame]; exact .refl d)

/-! ### Finalizing tables -/

theorem steps_completeKey (pos : Nat) (k : ForeignKey) (d : Database) : (completeKey pos k).Follows (Steps Step) d := by
  refine .of_get ((follows_ofExcept Steps.trail _).bind Steps.trail fun target e _ => ?_)
  split
  · exact follows_pure Steps.trail _
  · split
    · exact steps_editAt (Table.steps_completeKey _ _) e
    · exact follows_fail Steps.trail _

theorem steps_linkKey (pos : Nat) (k : ForeignKey) (d : Database) : (linkKey pos k).Follows (Steps Step) d := by
  refine .of_get ((follows_ofExcept Steps.trail _).bind Steps.trail fun target e _ => ?_)
  split
  · split
    · exact follows_fail Steps.trail _
    · split
      · exact follows_fail Steps.trail _
      · exact (steps_modifyTableAt (fun t => .link t k) e).bind Steps.trail fun _ _ _ =>
          Steps.report (.told fun _ _ => by simp)
  · exact follows_pure Steps.trail _

theorem steps_completeKeys (pos : Nat) (d : Database) : (completeKeys pos).Follows (Steps Step) d := by
  refine .of_get ?_
  split
  · exact follows_pure Steps.trail _
  · exact .forEach Steps.trail fun k _ e => steps_completeKey pos k e

theorem steps_linkKeys (pos : Nat) (d : Database) : (linkKeys pos).Follows (Steps Step) d := by
  refine .of_get ?_
  split
  · exact follows_pure Steps.trail _
  · exact (Follows.forEach Steps.trail fun k _ e => steps_linkKey pos k e).bind Steps.trail fun _ e _ =>
      steps_modifyTableAt .refer e

theorem steps_addKeyIndices (p : Platform) (pos : Nat) (d : Database) :
    (addKeyIndices p pos).Follows (Steps Step) d := by
  refine .of_get ?_
  split
  · exact follows_pure Steps.trail _
  · exact steps_editAt (Table.steps_addKeyIndices _) d

theorem steps_finalizeTable (p : Platform) (pos : Nat) (d : Database) :
    (finalizeTable p pos).Follows (Steps Step) d := by
  refine (steps_editAt Table.steps_addHeavyIndices d).bind Steps.trail fun _ d₁ _ => ?_
  refine (steps_editAt Table.steps_dropUnusedIdMethod d₁).bind Steps.trail fun _ d₂ _ => ?_
  refine (steps_completeKeys pos d₂).bind Steps.trail fun _ d₃ _ => ?_
  refine (steps_linkKeys pos d₃).bind Steps.trail fun _ d₄ _ => ?_
  exact (steps_addKeyIndices p pos d₄).bind Steps.trail fun _ d₅ _ => steps_editAt Table.steps_warnWithoutKey d₅

theorem steps_prepareTables (d : Database) :
    (Change.modify prepareTables : Edit Database Unit).Follows (Steps Step) d := by
  refine Steps.modify (.tables ?_)
  rw [List.forall₂_map_right_iff, List.forall₂_same]
  exact fun t _ => .inr (.prepare t d)

/-! ### Running behaviors -/

theorem steps_spread (b : Behavior) (d : Database) : (spread b).Follows (Steps Step) d := by
  obtain ⟨hlog, htables⟩ := Change.each_of_silent (ε := Error) (Q := fun t u : Table => u = t ∨ Table.Step t [] u)
    (c := Change.attempt fun t => if Behavior.isTaken t.behaviors b then .ok t else t.addBehavior (b.forTable t.name))
    (fun t => .inl rfl)
    (fun t => by
      unfold Change.attempt
      split
      · rename_i u hu
        dsimp only at hu
        split at hu
        · cases hu
          exact ⟨rfl, .inl rfl⟩
        · exact ⟨rfl, .inr (.behavior hu)⟩
      · exact ⟨rfl, .inl rfl⟩)
    d.tables
  unfold Change.Follows spread Change.within
  dsimp only
  rw [hlog]
  exact .single (.tables htables)

theorem plugin_of_builtin {name : String} {plugin : Plugin} (h : Registry.builtin.get? name = some plugin) :
    plugin = Timestampable.plugin ∨ plugin = Archivable.plugin := by
  rcases List.mem_pair.mp (Dictionary.mem_of_get?_ofList h) with heq | heq
  · exact Or.inl (Prod.mk.inj heq).2
  · exact Or.inr (Prod.mk.inj heq).2

theorem builtin_databaseHook? (b : Behavior) : Registry.builtin.databaseHook? b = none := by
  refine Option.eq_none_iff_forall_ne_some.mpr fun hook h => ?_
  obtain ⟨plugin, hget, hhook⟩ := Option.bind_eq_some_iff.mp h
  rcases plugin_of_builtin hget with rfl | rfl <;> cases hhook

theorem steps_timestamps (b : Behavior) (table : String) (d : Database) :
    (Timestampable.tableHook b table).Follows (Steps Step) d := by
  refine .of_get ?_
  split
  · exact steps_editAt (Table.steps_addTimestamps _) d
  · exact follows_fail Steps.trail _

/-- The archive is added right after the event that names it. -/
theorem steps_archive (b : Behavior) (table : String) (d : Database) :
    (Archivable.tableHook b table).Follows (Steps Step) d := by
  refine .of_get ?_
  dsimp only
  split
  · exact follows_pure Steps.trail _
  rename_i hfree
  split
  · exact follows_fail Steps.trail _
  rename_i source hsource
  cases harchive : Archivable.archive source (Archivable.archiveName b table) b with
  | error err => exact .refl d
  | ok t =>
    have hname := (Archivable.archive_eq_ok harchive).1
    have hadd : d.addTable t = .ok { d with tables := d.tables ++ [t] } := by
      rw [addTable, hname, if_neg hfree]
    show (do Change.report (.addingArchive table (Archivable.archiveName b table)); Change.attempt (·.addTable t) :
      Edit Database Unit).Follows (Steps Step) d
    unfold Change.Follows
    rw [← Change.bind_eq]
    simp only [Change.bind, Change.report, Change.attempt, hadd]
    exact .single (.archive (by simpa using hfree) hsource harchive)

theorem steps_hook {b : Behavior} {hook : Behavior → String → Edit Database Unit}
    (h : Registry.builtin.tableHook? b = some hook) (table : String) (d : Database) :
    (hook b table).Follows (Steps Step) d := by
  obtain ⟨plugin, hget, hhook⟩ := Option.bind_eq_some_iff.mp h
  rcases plugin_of_builtin hget with rfl | rfl <;> cases hhook
  · exact steps_timestamps b table d
  · exact steps_archive b table d

theorem steps_runBehavior (id : String) (d : Database) : (runBehavior .builtin id).Follows (Steps Step) d := by
  refine .of_get ?_
  split
  · exact follows_pure Steps.trail _
  rename_i b hb
  have hmark : ∀ e, (do Change.modify (·.modifyBehavior id ({ · with executed := true })); pure true :
      Edit Database Bool).Follows (Steps Step) e := fun e =>
    (Steps.modify (.executed e id)).bind Steps.trail fun _ _ _ => follows_pure Steps.trail _
  rw [builtin_databaseHook?]
  dsimp only
  split
  · exact (steps_spread b d).bind Steps.trail fun _ e _ => hmark e
  · exact hmark d

theorem steps_mark (name id : String) (d : Database) :
    (Change.modify (·.modifyTable name (·.modifyBehavior id ({ · with executed := true }))) :
      Edit Database Unit).Follows (Steps Step) d :=
  Steps.modify (.tables (forall₂_modifyFirst (fun _ => .inl rfl) fun t _ _ => .inr (.executed t id)))

theorem steps_runTableBehavior (key : String × String) (d : Database) :
    (runTableBehavior .builtin key).Follows (Steps Step) d := by
  refine .of_get ?_
  split
  · exact follows_pure Steps.trail _
  rename_i b hb
  have hmark : ∀ e, (do
      Change.modify (·.modifyTable key.1 (·.modifyBehavior key.2 ({ · with executed := true }))); pure true :
      Edit Database Bool).Follows (Steps Step) e := fun e =>
    (steps_mark key.1 key.2 e).bind Steps.trail fun _ _ _ => follows_pure Steps.trail _
  split
  · rename_i hook hhook
    refine (Steps.report (.told fun _ _ => by simp)).bind Steps.trail fun _ e _ => ?_
    exact (steps_hook hhook key.1 e).bind Steps.trail fun _ f _ => hmark f
  · exact hmark d

theorem steps_settleRound (limit : Nat) (d : Database) : (settleRound limit .builtin).Follows (Steps Step) d :=
  (Worklist.follows_work Steps.trail steps_runBehavior limit d).bind Steps.trail fun _ e _ =>
    (Worklist.follows_work Steps.trail steps_runTableBehavior limit e).bind Steps.trail fun _ _ _ =>
      follows_pure Steps.trail _

theorem steps_settleRounds (limit rounds : Nat) (d : Database) :
    (settleRounds limit .builtin rounds).Follows (Steps Step) d := by
  induction rounds generalizing d with
  | zero => exact .of_get (follows_fail Steps.trail _)
  | succ rounds ih =>
    refine (steps_settleRound limit d).bind Steps.trail fun ran e _ => ?_
    split
    · exact follows_pure Steps.trail _
    · exact (ih e).bind Steps.trail fun _ _ _ => follows_pure Steps.trail _

/-! ### Finalization -/

theorem steps_finalizeTables (p : Platform) (d : Database) : (finalizeTables p).Follows (Steps Step) d :=
  .of_get (.forEach Steps.trail fun pos _ e => steps_finalizeTable p pos e)

theorem steps_finalize (limit : Nat) (p : Platform) (d : Database) :
    (finalize limit .builtin p).Follows (Steps Step) d := by
  refine (steps_settleRounds limit limit d).bind Steps.trail fun ran e _ => ?_
  refine (steps_prepareTables e).bind Steps.trail fun _ e₁ _ => ?_
  refine (steps_finalizeTables p e₁).bind Steps.trail fun _ e₂ _ => .of_get ?_
  exact (Steps.report (.told fun _ _ => by simp)).bind Steps.trail fun _ _ _ => follows_pure Steps.trail _

end Database

end Schemata
