import Schemata.Build.Schema
import Schemata.Proofs.Settle
import Schemata.Proofs.TableEdits

/-!
# What is built from a declaration

A table, a database and a list of tables are built by adding one declared part after another. So a
condition holds of what is built when it holds of the bare start and each addition keeps it: there is
one rule of this form for each of them.
-/

namespace Schemata

open Change

variable {ε σ α β : Type} {r : Registry}

/-! ### Results -/

theorem bind_eq_ok {x : Except ε α} {f : α → Except ε β} {b : β} :
    x >>= f = .ok b ↔ ∃ a, x = .ok a ∧ f a = .ok b := by
  cases x with
  | ok a => exact ⟨fun h => ⟨a, rfl, h⟩, fun ⟨_, ha, h⟩ => Except.ok.inj ha ▸ h⟩
  | error e =>
    refine ⟨fun h => ?_, fun ⟨_, ha, _⟩ => ?_⟩
    · cases h
    · cases ha

theorem pure_eq_ok {a b : α} : (pure a : Except ε α) = .ok b ↔ a = b :=
  ⟨Except.ok.inj, congrArg _⟩

theorem eq_ok_getD {x : Except ε α} {a : α} (h : x.toOption.isSome = true) : x = .ok (x.toOption.getD a) := by
  cases x with
  | ok b => rfl
  | error e => cases h

/-- What the addition of each declared part keeps holds after all of them. -/
theorem addDeclared_keeps {read : α → Except Error β} {add : σ → β → Except Error σ} {I : σ → Prop} {l : List α}
    {s t : σ} (step : ∀ a ∈ l, ∀ b s t, read a = .ok b → add s b = .ok t → I s → I t)
    (h : addDeclared read add s l = .ok t) (hs : I s) : I t := by
  induction l generalizing s with
  | nil => exact Except.ok.inj h ▸ hs
  | cons a l ih =>
    obtain ⟨b, hb, h⟩ := bind_eq_ok.mp h
    obtain ⟨v, hv, h⟩ := bind_eq_ok.mp h
    exact ih (fun c hc => step c (List.mem_cons_of_mem _ hc)) h (step a List.mem_cons_self b s v hb hv hs)

/-! ### Tables -/

namespace Table

variable {d : Database} {referenceOnly : Bool} {decl : TableDecl} {t : Table}

/-- What holds of the bare table and is kept by each addition holds of the table that is built. -/
theorem ofDecl_keeps {I : Table → Prop} (h : ofDecl r d referenceOnly decl = .ok t)
    (head : ∀ settings, I (head referenceOnly decl settings))
    (column : ∀ c m t u, Column.ofDecl d decl.name c = .ok m → t.addColumn m = .ok u → I t → I u)
    (foreignKey : ∀ k t u, t.addForeignKey k = .ok u → I t → I u)
    (index : ∀ i t u, t.addIndex i = .ok u → I t → I u)
    (unique : ∀ i t u, t.addUnique i = .ok u → I t → I u)
    (behavior : ∀ c b t u, Behavior.ofDecl r c = .ok b → t.addBehavior b = .ok u → I t → I u)
    (rest : ∀ t vendor ids, I t → I { t with vendor := vendor, idParameters := ids }) : I t := by
  simp only [ofDecl, bind_eq_ok, pure_eq_ok] at h
  obtain ⟨settings, -, u₁, h₁, u₂, h₂, u₃, h₃, u₄, h₄, u₅, h₅, vendor, -, ids, -, rfl⟩ := h
  have hcolumns : I u₁ := addDeclared_keeps (fun c _ => column c) h₁ (head settings)
  have hkeys : I u₂ := addDeclared_keeps (fun _ _ k t u _ => foreignKey k t u) h₂ hcolumns
  have hindices : I u₃ := addDeclared_keeps (fun _ _ i t u _ => index i t u) h₃ hkeys
  have huniques : I u₄ := addDeclared_keeps (fun _ _ i t u _ => unique i t u) h₄ hindices
  have hbehaviors : I u₅ := addDeclared_keeps (fun c _ => behavior c) h₅ huniques
  exact rest _ _ _ hbehaviors

/-- The name of a table and whether it may only be referred to. -/
def mark (t : Table) : String × Bool :=
  (t.name, t.referenceOnly)

theorem mark_ofDecl (h : ofDecl r d referenceOnly decl = .ok t) :
    t.mark = (decl.name, decl.referenceOnly || referenceOnly) := by
  refine ofDecl_keeps (I := fun u => u.mark = (decl.name, decl.referenceOnly || referenceOnly)) h ?_ ?_ ?_ ?_ ?_ ?_ ?_
  · exact fun _ => rfl
  · intro _ m t u _ hadd ht
    obtain ⟨-, rfl⟩ := addColumn_eq_ok.mp hadd
    exact ht
  · intro k t u hadd ht
    obtain ⟨-, rfl⟩ := addForeignKey_eq_ok.mp hadd
    exact ht
  · intro i t u hadd ht
    obtain ⟨j, -, rfl⟩ := addIndex_eq_ok.mp hadd
    exact ht
  · intro i t u hadd ht
    obtain ⟨j, -, rfl⟩ := addUnique_eq_ok.mp hadd
    exact ht
  · intro _ b t u _ hadd ht
    obtain ⟨rfl, -⟩ := addBehavior_eq_ok hadd
    exact ht
  · exact fun _ _ _ ht => ht

end Table

/-! ### Databases -/

namespace Database

variable {decl : SchemaDecl} {d e : Database} {referenceOnly : Bool}

theorem head_keeps {I : Database → Prop} (h : head decl = .ok d)
    (bare : ∀ settings,
      I { name := decl.name, settings := settings, nameSpace := decl.nameSpace, schema := decl.schema })
    (domain : ∀ m d e, d.addDomain m = .ok e → I d → I e) : I d := by
  obtain ⟨settings, -, hdomains⟩ := bind_eq_ok.mp h
  exact addDeclared_keeps (fun _ _ m d e _ => domain m d e) hdomains (bare settings)

theorem addSettings_keeps {I : Database → Prop} (h : d.addSettings r decl = .ok e)
    (behavior : ∀ b d e, d.addBehavior b = .ok e → I d → I e)
    (vendor : ∀ d vendor, I d → I { d with vendor := vendor }) (hd : I d) : I e := by
  simp only [addSettings, bind_eq_ok, pure_eq_ok] at h
  obtain ⟨f, hf, blocks, -, rfl⟩ := h
  exact vendor f blocks (addDeclared_keeps (fun _ _ b d e _ => behavior b d e) hf hd)

theorem addDomain_eq_ok {m : Domain} :
    d.addDomain m = .ok e ↔
      ∃ name, m.name = some name ∧ d.domain? name = none ∧ e = { d with domains := d.domains ++ [m] } := by
  unfold addDomain
  cases m.name with
  | none => simp
  | some name => cases h : d.domain? name <;> simp [h, eq_comm]

theorem addTable_eq_ok {t : Table} :
    d.addTable t = .ok e ↔ d.hasTable t.name = false ∧ e = { d with tables := d.tables ++ [t] } := by
  unfold addTable
  cases d.hasTable t.name
  · simp [eq_comm]
  · simp

/-- A behavior is added as one of the database. -/
theorem addBehavior_eq_ok {b : Behavior} (h : d.addBehavior b = .ok e) :
    e = { d with behaviors := d.behaviors ++ [{ b with table := none }] } ∧ ∀ c ∈ d.behaviors, c.id ≠ b.id := by
  unfold addBehavior at h
  cases ha : Behavior.attach (.database d.name) d.behaviors { b with table := none } with
  | error e =>
    rw [ha] at h
    cases h
  | ok bs =>
    rw [ha] at h
    obtain ⟨hfree, rfl⟩ := Behavior.attach_eq_ok.mp ha
    cases h
    exact ⟨rfl, (Behavior.isTaken_eq_false.mp hfree).1⟩

theorem name_head (h : head decl = .ok d) : d.name = decl.name ∧ d.tables = [] := by
  refine head_keeps (I := fun d => d.name = decl.name ∧ d.tables = []) h (fun _ => ⟨rfl, rfl⟩) ?_
  intro m d e hadd hd
  obtain ⟨name, -, -, rfl⟩ := addDomain_eq_ok.mp hadd
  exact hd

theorem name_addSettings (h : d.addSettings r decl = .ok e) : e.name = d.name ∧ e.tables = d.tables := by
  refine addSettings_keeps (I := fun e => e.name = d.name ∧ e.tables = d.tables) h ?_ (fun _ _ hd => hd) ⟨rfl, rfl⟩
  intro b d e hadd hd
  obtain ⟨rfl, -⟩ := addBehavior_eq_ok hadd
  exact hd

/-- Declared tables are built from what is there so far and added at the end. -/
theorem gives_addDeclaredTable {t : TableDecl} :
    (addDeclaredTable r referenceOnly t).Gives d () e ↔
      ∃ table, Table.ofDecl r d referenceOnly t = .ok table ∧ d.addTable table = .ok e := by
  simp only [addDeclaredTable, gives_bind, gives_get, gives_ofExcept, gives_report, gives_attempt]
  constructor
  · rintro ⟨_, _, ⟨rfl, rfl⟩, table, _, ⟨htable, rfl⟩, -, _, rfl, hadd⟩
    exact ⟨table, htable, hadd⟩
  · rintro ⟨table, htable, hadd⟩
    exact ⟨d, d, ⟨rfl, rfl⟩, table, d, ⟨htable, rfl⟩, (), d, rfl, hadd⟩

theorem gives_addDeclaredTables {ts : List TableDecl} (h : (addDeclaredTables r referenceOnly ts).Gives d () e) :
    (forEach (addDeclaredTable r referenceOnly) ts).Gives d () e := by
  simp only [addDeclaredTables, gives_bind, gives_get, gives_report] at h
  obtain ⟨⟨⟩, _, hts, _, _, ⟨-, rfl⟩, rfl⟩ := h
  exact hts

theorem addDeclaredTables_keeps {I : Database → Prop} {ts : List TableDecl}
    (h : (addDeclaredTables r referenceOnly ts).Gives d () e)
    (table : ∀ t ∈ ts, ∀ table d e, Table.ofDecl r d referenceOnly t = .ok table → d.addTable table = .ok e →
      I d → I e) (hd : I d) : I e := by
  refine Gives.forEach (R := fun d e => I d → I e) (fun _ => id) (fun h h' => h' ∘ h) ?_ (gives_addDeclaredTables h) hd
  intro t ht d e hstep
  obtain ⟨built, hbuilt, hadd⟩ := gives_addDeclaredTable.mp hstep
  exact table t ht built d e hbuilt hadd

/-- The names and marks of the tables of a database, in order. -/
def marks (d : Database) : List (String × Bool) :=
  d.tables.map (·.mark)

theorem marks_addDeclaredTables {ts : List TableDecl} (h : (addDeclaredTables r referenceOnly ts).Gives d () e) :
    e.name = d.name ∧ e.marks = d.marks ++ ts.map fun t => (t.name, t.referenceOnly || referenceOnly) := by
  replace h := gives_addDeclaredTables h
  induction ts generalizing d with
  | nil =>
    obtain rfl := gives_forEach_nil.mp h
    exact ⟨rfl, (List.append_nil _).symm⟩
  | cons t ts ih =>
    obtain ⟨f, hf, hts⟩ := gives_forEach_cons.mp h
    obtain ⟨table, htable, hadd⟩ := gives_addDeclaredTable.mp hf
    obtain ⟨-, rfl⟩ := addTable_eq_ok.mp hadd
    obtain ⟨hname, hmarks⟩ := ih hts
    refine ⟨hname, ?_⟩
    rw [hmarks, marks, List.map_append, List.map_singleton, Table.mark_ofDecl htable, List.append_assoc,
      List.singleton_append, List.map_cons, marks]

end Database

end Schemata
