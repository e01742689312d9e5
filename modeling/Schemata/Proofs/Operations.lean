import Schemata.Proofs.Trail
import Schemata.Proofs.WellFormed

/-!
# Operations on tables and databases

A table and a database are changed by a few operations, which may fail. Whatever operations follow one
another, a well-formed table stays well-formed and so does a database, and an operation that fails
changes nothing.
-/

namespace Schemata

open Change

variable {ε σ τ Op : Type}

/-- The state after operations one after another, where the next one goes on also after one that failed. -/
def runAll (run : Op → Edit σ Unit) (s : σ) (ops : List Op) : σ :=
  ops.foldl (fun s op => (run op s).state) s

theorem runAll_keeps {run : Op → Edit σ Unit} {I : σ → Prop} {ops : List Op}
    (step : ∀ op ∈ ops, ∀ s, (run op).Follows (fun s _ t => I s → I t) s) {s : σ} (hs : I s) :
    I (runAll run s ops) := by
  induction ops generalizing s with
  | nil => exact hs
  | cons op ops ih =>
    exact ih (fun o ho => step o (List.mem_cons_of_mem _ ho)) (step op List.mem_cons_self s hs)

/-- What holds of the operations on a kind of thing: admissible ones keep `I`, in any number and whether they
    succeed or not, and atomic ones change nothing when they fail. -/
structure Operations (run : Op → Edit σ Unit) (Admissible Atomic : Op → Prop) (I : σ → Prop) : Prop where
  kept : ∀ ops, (∀ op ∈ ops, Admissible op) → ∀ s, I s → I (runAll run s ops)
  unchanged : ∀ op, Atomic op → ∀ s e, (run op s).result = .error e → (run op s).state = s

/-! ### Changes that fail without a trace -/

namespace Change

/-- Where the change fails, it leaves the state as it was. -/
def Atomic (c : Edit σ Unit) : Prop :=
  ∀ s e, (c s).result = .error e → (c s).state = s

theorem atomic_attempt (f : σ → Except Error σ) : (attempt f : Edit σ Unit).Atomic := by
  intro s e h
  unfold attempt at h ⊢
  split
  · rename_i t ht
    rw [ht] at h
    cases h
  · rfl

theorem atomic_modify (f : σ → σ) : (modify f : Edit σ Unit).Atomic := by
  rintro s e h
  cases h

/-- A change of the first item that `p` accepts; without such an item nothing happens. -/
def atFirst (p : σ → Bool) (c : Edit σ Unit) : Edit (List σ) Unit := do
  let ss ← get
  match ss.findIdx? p with
  | some pos => atPosition pos c
  | none => pure ()

theorem Atomic.atFirst {c : Edit σ Unit} (h : c.Atomic) (p : σ → Bool) : (atFirst p c).Atomic := by
  intro ss e he
  have hrun : Change.atFirst p c ss = (match ss.findIdx? p with
    | some pos => atPosition pos c
    | none => pure () : Edit (List σ) Unit) ss := rfl
  rw [hrun] at he ⊢
  cases hpos : ss.findIdx? p with
  | none =>
    rw [hpos] at he
    cases he
  | some pos =>
    rw [hpos] at he
    simp only [atPosition] at he ⊢
    cases hs : ss[pos]? with
    | none => rfl
    | some s =>
      rw [hs] at he
      obtain ⟨hlt, rfl⟩ := List.getElem?_eq_some_iff.mp hs
      simp only [h _ e he, List.set_getElem_self]

theorem Atomic.within {part : σ → τ} {put : τ → σ → σ} (hput : ∀ s, put (part s) s = s) {c : Edit τ Unit}
    (h : c.Atomic) : (within part put c : Edit σ Unit).Atomic := by
  intro s e he
  have hsame : (c (part s)).state = part s := h _ e he
  show put (c (part s)).state s = s
  rw [hsame, hput]

theorem follows_atFirst {Q : σ → List Event → σ → Prop} {R : List σ → List Event → List σ → Prop} (hR : Trail R)
    {p : σ → Bool} {c : Edit σ Unit} (h : ∀ s, c.Follows Q s)
    (hset : ∀ (ss : List σ) pos s es t, ss[pos]? = some s → Q s es t → R ss es (ss.set pos t)) (ss : List σ) :
    (atFirst p c).Follows R ss := by
  refine .of_get ?_
  split
  · exact .atPosition hR h fun s es t => hset ss _ s es t
  · exact follows_pure hR _

end Change

/-! ### Tables -/

namespace Table

inductive Operation where
  | addColumn (c : Column)
  | addForeignKey (k : ForeignKey)
  | removeForeignKey (name : String)
  | addIndex (i : Index)
  | addMissingIndex (i : Index)
  | addUnique (i : Index)
  | takeUniques
  | addBehavior (b : Behavior)
  | removeBehavior (id : String)

namespace Operation

def run : Operation → Edit Table Unit
  | addColumn c => Change.attempt (·.addColumn c)
  | addForeignKey k => Change.attempt (·.addForeignKey k)
  | removeForeignKey name => Change.modify (·.removeForeignKey name)
  | addIndex i => Change.attempt (·.addIndex i)
  | addMissingIndex i => Change.attempt (·.addMissingIndex i)
  | addUnique i => Change.attempt (·.addUnique i)
  | takeUniques => Change.modify fun t => { t with uniques := [] }
  | addBehavior b => Change.attempt (·.addBehavior b)
  | removeBehavior id => Change.modify (·.removeBehavior id)

theorem atomic_run (op : Operation) : op.run.Atomic := by
  cases op with
  | removeForeignKey | takeUniques | removeBehavior => exact atomic_modify _
  | _ => exact atomic_attempt _

theorem name_run (op : Operation) (t : Table) : op.run.Follows (fun t _ u => u.name = t.name) t := by
  have hR := trail_same Table.name
  cases op with
  | addColumn c =>
    refine follows_attempt hR fun u hu => ?_
    obtain ⟨-, rfl⟩ := addColumn_eq_ok.mp hu
    rfl
  | addForeignKey k =>
    refine follows_attempt hR fun u hu => ?_
    obtain ⟨-, rfl⟩ := addForeignKey_eq_ok.mp hu
    rfl
  | addIndex i =>
    refine follows_attempt hR fun u hu => ?_
    obtain ⟨j, -, rfl⟩ := addIndex_eq_ok.mp hu
    rfl
  | addMissingIndex i =>
    refine follows_attempt hR fun u hu => ?_
    rw [addMissingIndex_indices hu]
  | addUnique i =>
    refine follows_attempt hR fun u hu => ?_
    obtain ⟨j, -, rfl⟩ := addUnique_eq_ok.mp hu
    rfl
  | addBehavior b =>
    refine follows_attempt hR fun u hu => ?_
    obtain ⟨rfl, -⟩ := addBehavior_eq_ok hu
    rfl
  | removeForeignKey | takeUniques | removeBehavior => exact follows_modify rfl

theorem wellFormed_run (op : Operation) (t : Table) : op.run.Follows (fun t _ u => t.WellFormed → u.WellFormed) t := by
  have hR := trail_keeps WellFormed
  cases op with
  | addColumn c => exact follows_attempt hR fun u hu ht => ht.addColumn hu
  | addForeignKey k => exact follows_attempt hR fun u hu ht => ht.addForeignKey hu
  | removeForeignKey name => exact follows_modify fun ht => ht.removeForeignKey name
  | addIndex i => exact follows_attempt hR fun u hu ht => ht.addIndex hu
  | addMissingIndex i => exact follows_attempt hR fun u hu ht => ht.addMissingIndex hu
  | addUnique i => exact follows_attempt hR fun u hu ht => ht.addUnique hu
  | takeUniques => exact follows_modify fun ht => ht.withoutUniques
  | addBehavior b => exact follows_attempt hR fun u hu ht => ht.addBehavior hu
  | removeBehavior id => exact follows_modify fun ht => ht.removeBehavior id

end Operation

theorem operations : Operations Operation.run (fun _ => True) (fun _ => True) WellFormed where
  kept _ _ _ ht := runAll_keeps (fun op _ t => op.wellFormed_run t) ht
  unchanged op _ := op.atomic_run

end Table

/-! ### Databases -/

namespace Database

inductive Operation where
  | addTable (t : Table)
  | addDomain (m : Domain)
  | addBehavior (b : Behavior)
  | removeBehavior (id : String)
  | onTable (name : String) (op : Table.Operation)

namespace Operation

def run : Operation → Edit Database Unit
  | addTable t => Change.attempt (·.addTable t)
  | addDomain m => Change.attempt (·.addDomain m)
  | addBehavior b => Change.attempt (·.addBehavior b)
  | removeBehavior id => Change.modify (·.removeBehavior id)
  | onTable name op =>
    Change.within (·.tables) (fun ts d => { d with tables := ts }) (Change.atFirst (·.name == name) op.run)

/-- Only a well-formed table may be added. -/
def Admissible : Operation → Prop
  | addTable t => t.WellFormed
  | _ => True

theorem atomic_run (op : Operation) : op.run.Atomic := by
  cases op with
  | removeBehavior => exact atomic_modify _
  | onTable name op => exact (op.atomic_run.atFirst _).within fun _ => rfl
  | _ => exact atomic_attempt _

theorem name_run (op : Operation) (d : Database) : op.run.Follows (fun d _ e => e.name = d.name) d := by
  have hR := trail_same Database.name
  cases op with
  | addTable t =>
    refine follows_attempt hR fun e he => ?_
    obtain ⟨-, rfl⟩ := addTable_eq_ok.mp he
    rfl
  | addDomain m =>
    refine follows_attempt hR fun e he => ?_
    obtain ⟨name, -, -, rfl⟩ := addDomain_eq_ok.mp he
    rfl
  | addBehavior b =>
    refine follows_attempt hR fun e he => ?_
    obtain ⟨rfl, -⟩ := addBehavior_eq_ok he
    rfl
  | removeBehavior => exact follows_modify rfl
  | onTable name op => rfl

theorem wellFormed_onTable (name : String) (op : Table.Operation) (d : Database) :
    (onTable name op).run.Follows (fun d _ e => d.WellFormed Table.WellFormed → e.WellFormed Table.WellFormed) d := by
  have hR : Trail fun (ts : List Table) _ us =>
      List.Forall₂ (fun t u => u.name = t.name ∧ (t.WellFormed → u.WellFormed)) ts us :=
    ⟨fun ts => List.forall₂_same.mpr fun _ _ => ⟨rfl, id⟩,
      fun h h' => forall₂_trans (fun hab hbc => ⟨hbc.1.trans hab.1, hbc.2 ∘ hab.2⟩) h h'⟩
  have hop : ∀ t, op.run.Follows (fun t _ u => u.name = t.name ∧ (t.WellFormed → u.WellFormed)) t := fun t =>
    ⟨op.name_run t, op.wellFormed_run t⟩
  have htables := follows_atFirst (p := fun t : Table => t.name == name) hR hop
    (fun _ _ _ _ _ ht htu => forall₂_set (fun _ => ⟨rfl, id⟩) ht htu) d.tables
  unfold run
  refine Follows.within htables ?_
  exact fun _ _ hts hd => WellFormed.of_forall₂ hd hts

theorem wellFormed_run {op : Operation} (hop : op.Admissible) (d : Database) :
    op.run.Follows (fun d _ e => d.WellFormed Table.WellFormed → e.WellFormed Table.WellFormed) d := by
  have hR := trail_keeps (Database.WellFormed Table.WellFormed)
  cases op with
  | addTable t => exact follows_attempt hR fun e he hd => hd.addTable hop he
  | addDomain m => exact follows_attempt hR fun e he hd => hd.addDomain he
  | addBehavior b => exact follows_attempt hR fun e he hd => hd.addBehavior he
  | removeBehavior id => exact follows_modify fun hd => hd.removeBehavior id
  | onTable name op => exact wellFormed_onTable name op d

end Operation

theorem operations : Operations Operation.run Operation.Admissible (fun _ => True) (WellFormed Table.WellFormed) where
  kept _ hops _ hd := runAll_keeps (fun _ hop d => Operation.wellFormed_run (hops _ hop) d) hd
  unchanged op _ := op.atomic_run

end Database

end Schemata
