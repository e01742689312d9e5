import Schemata.Proofs.Hooks
import Schemata.Proofs.Stable

/-!
# Finalizing a database

Finalization runs the behaviors and then finalizes the tables, which leaves the behaviors alone. It ends
in a finalized database without pending behaviors; such a database it leaves as it is.
-/

namespace Schemata.Database
variable {d e m : Database} {r : Registry} {p : Platform} {limit : Nat} {ran : List HookRun} {w : Unit}

theorem gives_finalize : (finalize limit r p).Gives d ran e ↔
    ∃ m, (settle limit r).Gives d ran m ∧ (finalizeTables p).Gives (prepareTables m) () e := by
  simp only [finalize, Change.gives_bind, Change.gives_get, Change.gives_modify, Change.gives_report,
    Change.gives_pure]
  constructor
  · rintro ⟨ran, m, hm, _, _, rfl, _, f, hf, _, _, ⟨rfl, rfl⟩, _, _, rfl, rfl, rfl⟩
    exact ⟨m, hm, hf⟩
  · rintro ⟨m, hm, hf⟩
    exact ⟨ran, m, hm, (), _, rfl, (), e, hf, e, e, ⟨rfl, rfl⟩, (), e, rfl, rfl, rfl⟩

/-! ### Behaviors stay -/

/-- The same behaviors in the database and its tables. -/
structure SameBehaviors (d e : Database) : Prop where
  own : e.behaviors = d.behaviors
  inTables : List.Forall₂ (fun t u : Table => u.name = t.name ∧ u.behaviors = t.behaviors) d.tables e.tables

theorem sameBehaviors_finalizeTables (h : (finalizeTables p).Gives (prepareTables d) w e) : d.SameBehaviors e := by
  have hg := grows_finalizeTables h
  have htables := List.forall₂_map_left_iff.mp hg.tables
  exact ⟨hg.behaviors, htables.imp fun t u ht => ⟨ht.name, ht.behaviors⟩⟩

theorem SameBehaviors.quiet (h : d.SameBehaviors e) (hd : d.Quiet) : e.Quiet := by
  have htables := map_eq_of_forall₂ h.inTables
    (f := fun t => (t.behaviors.filter (!·.executed)).map fun b => (t.name, b.id))
    (g := fun t => (t.behaviors.filter (!·.executed)).map fun b => (t.name, b.id))
    fun t u htu => by rw [htu.1, htu.2]
  refine ⟨?_, ?_⟩
  · rw [pendingBehaviors, h.own]
    exact hd.own
  · rw [pendingTableBehaviors, List.flatMap_def, htables, ← List.flatMap_def]
    exact hd.inTables

/-! ### Where finalization ends -/

section Ends
variable {P : Database → Prop}

/-- Finalization ends in a finalized database, which grew out of one that meets the condition kept by
    the hooks. -/
theorem finalized_of_finalize (hr : r.Settles fun d e => P d → P e) (hP : ∀ {d}, P d → d.DistinctNames) (hd : P d)
    (h : (finalize limit r p).Gives d ran e) :
    ∃ m, P m ∧ (prepareTables m).Grows e ∧ e.Finalized p := by
  obtain ⟨m, hm, he⟩ := gives_finalize.mp h
  have hPm : P m := hr.settle hm hd
  exact ⟨m, hPm, grows_finalizeTables he, gives_finalizeTables (hP hPm) he⟩

theorem quiet_of_finalize (hr : r.Settles fun d e => P d → P e) (hP : ∀ {d}, P d → d.DistinctNames) (hd : P d)
    (h : (finalize limit r p).Gives d ran e) : e.Quiet := by
  obtain ⟨m, hm, he⟩ := gives_finalize.mp h
  refine (sameBehaviors_finalizeTables he).quiet ?_
  exact quiet_of_settle hr id (fun hP' => (hP hP').tables) hd hm

end Ends

/-- A finalized database without pending behaviors stays as it is, and no behavior runs. -/
theorem Finalized.finalize_self (h : d.Finalized p) (hq : d.Quiet) (hl : 0 < limit) :
    (finalize limit r p).Gives d [] d :=
  gives_finalize.mpr ⟨d, hq.settle hl, h.finalizeTables_self⟩

/-! ### An example -/

/-- A book refers to its author by an implicit key and to another book by an explicit one. A behavior of
    the database wants a column in each table. -/
def library : Database where
  name := "library"
  tables :=
    [{ name := "book"
       columns :=
         [{ name := "isbn", domain := { type := .varchar }, primaryKey := true },
          { name := "sequel", domain := { type := .varchar } }]
       foreignKeys :=
         [{ name := "writer", target := "author", table := "book" },
          { name := "sequel", target := "book", references := [⟨"sequel", "isbn"⟩], table := "book" }] },
     { name := "author"
       columns := [{ name := "id", domain := { type := .integer }, primaryKey := true, autoIncrement := true }] }]
  behaviors :=
    [{ name := "timestampable"
       id := "timestampable"
       parameters := Dictionary.ofList [("create_column", "created")] }]

def finalizedLibrary : Database :=
  (finalize settleLimit .builtin (.mysql "InnoDB") library).state

/-- The behavior of the database goes to both tables, where it has more to do. -/
def libraryRuns : List HookRun :=
  [.database "timestampable", .table "book" "timestampable", .table "author" "timestampable"]

theorem library_finalizes :
    (finalize settleLimit .builtin (.mysql "InnoDB")).Gives library libraryRuns finalizedLibrary :=
  ⟨rfl, rfl⟩

end Schemata.Database
