import Schemata.Build.Schema
import Schemata.Proofs.Change

/-!
# How building fails

What is built from a declaration alone, a database with its tables or a merge of databases that are
there, never fails with an error about a file: only the resolution and the loading of an include does.
And only the indices of a table make it fail for the name of an index, so other errors are ordinary ones
(`Error.IsOrdinary`).
-/

namespace Schemata

variable {ε σ τ α β : Type} {P Q : ε → Prop}

/-- Where `x` is an error, `P` holds of it. -/
def FailsWithin (P : ε → Prop) : Except ε α → Prop
  | .ok _ => True
  | .error e => P e

/-! ### Results -/

@[simp] theorem failsWithin_ok (a : α) : FailsWithin P (.ok a : Except ε α) :=
  trivial

@[simp] theorem failsWithin_pure (a : α) : FailsWithin P (pure a : Except ε α) :=
  trivial

@[simp low] theorem failsWithin_error (e : ε) : FailsWithin P (.error e : Except ε α) ↔ P e :=
  .rfl

theorem FailsWithin.mono (hPQ : ∀ e, P e → Q e) {x : Except ε α} (h : FailsWithin P x) : FailsWithin Q x := by
  cases x with
  | ok a => trivial
  | error e => exact hPQ e h

@[simp] theorem failsWithin_bind {x : Except ε α} {f : α → Except ε β} :
    FailsWithin P (x >>= f) ↔ FailsWithin P x ∧ ∀ a, x = .ok a → FailsWithin P (f a) := by
  cases x with
  | ok a =>
    constructor
    · rintro h
      refine ⟨trivial, fun b hb => ?_⟩
      cases hb
      exact h
    · rintro ⟨-, h⟩
      exact h a rfl
  | error e =>
    constructor
    · rintro h
      refine ⟨h, fun b hb => ?_⟩
      cases hb
    · rintro ⟨h, -⟩
      exact h

@[simp] theorem failsWithin_map {x : Except ε α} {f : α → β} : FailsWithin P (x.map f) ↔ FailsWithin P x := by
  cases x with
  | ok a => rfl
  | error e => rfl

@[simp] theorem failsWithin_fmap {x : Except ε α} {f : α → β} : FailsWithin P (f <$> x) ↔ FailsWithin P x :=
  failsWithin_map

@[simp] theorem failsWithin_mapM {f : α → Except ε β} (hf : ∀ a, FailsWithin P (f a)) (l : List α) :
    FailsWithin P (l.mapM f) := by
  induction l with
  | nil => trivial
  | cons a l ih => simp [List.mapM_cons, hf, ih]

@[simp] theorem failsWithin_addDeclared {P : Error → Prop} {read : α → Except Error β} {add : σ → β → Except Error σ}
    (hread : ∀ a, FailsWithin P (read a)) (hadd : ∀ s b, FailsWithin P (add s b)) (l : List α) (s : σ) :
    FailsWithin P (addDeclared read add s l) := by
  induction l generalizing s with
  | nil => trivial
  | cons a l ih => simp [addDeclared, hread, hadd, ih]

/-! ### Changes -/

namespace Change

/-- Where `c` fails when it starts in `s`, `P` holds of the error. -/
def FailsWithin (P : ε → Prop) (c : Change ε σ α) (s : σ) : Prop :=
  Schemata.FailsWithin P (c s).result

variable {s : σ}

theorem failsWithin_pure (a : α) : (pure a : Change ε σ α).FailsWithin P s := trivial

theorem failsWithin_modify (f : σ → σ) : (modify f : Change ε σ Unit).FailsWithin P s := trivial

theorem failsWithin_report (e : Event) : (report e : Change ε σ Unit).FailsWithin P s := trivial

theorem failsWithin_ofExcept {x : Except ε α} (h : Schemata.FailsWithin P x) : (ofExcept x).FailsWithin P s := by
  cases x with
  | ok a => trivial
  | error e => exact h

theorem failsWithin_attempt {f : σ → Except ε σ} (h : Schemata.FailsWithin P (f s)) : (attempt f).FailsWithin P s := by
  unfold FailsWithin attempt
  cases hf : f s with
  | ok t => trivial
  | error e =>
    rw [hf] at h
    exact h

theorem FailsWithin.bind {c : Change ε σ α} {f : α → Change ε σ β} (hc : c.FailsWithin P s)
    (hf : ∀ a t, c.Gives s a t → (f a).FailsWithin P t) : (c >>= f).FailsWithin P s := by
  have key : (c >>= f) s = Change.bind c f s := rfl
  unfold FailsWithin at hc ⊢
  rw [key, Change.bind]
  cases hr : (c s).result with
  | ok a => exact hf a _ ⟨hr, rfl⟩
  | error e =>
    rw [hr] at hc
    exact hc

theorem FailsWithin.of_get {f : σ → Change ε σ α} (h : (f s).FailsWithin P s) : (Change.get >>= f).FailsWithin P s :=
  FailsWithin.bind (c := Change.get) trivial fun a t hgives => by
    obtain ⟨rfl, rfl⟩ := gives_get.mp hgives
    exact h

theorem FailsWithin.starting {t : τ} {c : Change ε τ α} (h : c.FailsWithin P t) : (starting t c).FailsWithin P s := by
  unfold FailsWithin at h ⊢
  unfold Change.starting
  cases hr : (c t).result with
  | ok a =>
    simp only [hr]
    trivial
  | error e =>
    rw [hr] at h
    simp only [hr]
    exact h

theorem FailsWithin.within {part : σ → τ} {put : τ → σ → σ} {c : Change ε τ α} (h : c.FailsWithin P (part s)) :
    (within part put c).FailsWithin P s := h

theorem FailsWithin.atPosition {pos : Nat} {c : Change ε σ Unit} {ss : List σ}
    (h : ∀ s, ss[pos]? = some s → c.FailsWithin P s) : (atPosition pos c).FailsWithin P ss := by
  unfold FailsWithin Change.atPosition
  cases hs : ss[pos]? with
  | none => trivial
  | some s => exact h s hs

/-- The steps of a loop fail as they do wherever `I` holds, which each of them keeps. -/
theorem FailsWithin.forEach_keeps {f : α → Change ε σ Unit} {I : σ → Prop} {l : List α}
    (step : ∀ a ∈ l, ∀ s, I s → (f a).FailsWithin P s ∧ ∀ t, (f a).Gives s () t → I t) (start : I s) :
    (Change.forEach f l).FailsWithin P s := by
  induction l generalizing s with
  | nil => trivial
  | cons a l ih =>
    obtain ⟨hfails, hkeeps⟩ := step a List.mem_cons_self s start
    exact hfails.bind fun _ t ht => ih (fun b hb => step b (List.mem_cons_of_mem _ hb)) (hkeeps t ht)

theorem FailsWithin.forEach {f : α → Change ε σ Unit} {l : List α} (h : ∀ a ∈ l, ∀ s, (f a).FailsWithin P s) (s : σ) :
    (Change.forEach f l).FailsWithin P s :=
  forEach_keeps (I := fun _ => True) (fun a ha s _ => ⟨h a ha s, fun _ _ => trivial⟩) trivial

/-- In a loop over the first `n` positions, the step at a position takes what holds there to what holds at the next
    one, and it fails as it does where that holds. -/
theorem FailsWithin.forEach_range {f : Nat → Change ε σ Unit} {n : Nat} (I : Nat → σ → Prop)
    (step : ∀ pos < n, ∀ s, I pos s → (f pos).FailsWithin P s ∧ ∀ t, (f pos).Gives s () t → I (pos + 1) t)
    (start : I 0 s) : (Change.forEach f (List.range n)).FailsWithin P s := by
  have hfrom : ∀ k pos s, pos + k = n → I pos s → (Change.forEach f (List.range' pos k)).FailsWithin P s := by
    intro k
    induction k with
    | zero => exact fun _ _ _ _ => trivial
    | succ k ih =>
      intro pos s hpos hs
      obtain ⟨hfails, hnext⟩ := step pos (by omega) s hs
      rw [List.range'_succ]
      exact hfails.bind fun _ t ht => ih (pos + 1) t (by omega) (hnext t ht)
  rw [List.range_eq_range']
  exact hfrom n 0 s (Nat.zero_add n) start

theorem FailsWithin.each {c : Change ε σ Unit} {ss : List σ} (h : ∀ s ∈ ss, c.FailsWithin P s) :
    (each c).FailsWithin P ss := by
  induction ss with
  | nil => trivial
  | cons s ss ih =>
    obtain ⟨hs, hss⟩ := List.forall_mem_cons.mp h
    unfold FailsWithin at hs ⊢
    cases hc : (c s).result with
    | ok a =>
      rw [each_cons_ok ss hc]
      exact ih hss
    | error e =>
      rw [each_cons_error ss hc]
      rwa [hc] at hs

theorem FailsWithin.gather {f : α → Change ε σ (Option β)} {I : σ → Prop} {l : List α}
    (h : ∀ a ∈ l, ∀ s, I s → (f a).FailsWithin P s) (hI : ∀ a ∈ l, ∀ s b t, I s → (f a).Gives s b t → I t)
    (start : I s) :
    (Change.gather f l).FailsWithin P s := by
  induction l generalizing s with
  | nil => trivial
  | cons a l ih =>
    refine (h a List.mem_cons_self s start).bind fun b t hb => ?_
    have ht := hI a List.mem_cons_self s b t start hb
    have hl := ih (fun c hc => h c (List.mem_cons_of_mem _ hc)) (fun c hc => hI c (List.mem_cons_of_mem _ hc)) ht
    exact hl.bind fun _ _ _ => failsWithin_pure _

/-! ### Success, or an error of some kind -/

section Unless
variable {t : σ} {R : α → σ → Prop} {T : β → σ → Prop}

/-- From `s` the change succeeds, with what `R` says, or it fails with an error of which `P` holds. -/
def GivesUnless (P : ε → Prop) (c : Change ε σ α) (s : σ) (R : α → σ → Prop) : Prop :=
  (∃ a t, c.Gives s a t ∧ R a t) ∨ ∃ e, (c s).result = .error e ∧ P e

namespace GivesUnless

variable {c : Change ε σ α} {f : α → Change ε σ β}

theorem of_gives {a : α} (h : c.Gives s a t) (hR : R a t) : c.GivesUnless P s R :=
  .inl ⟨a, t, h, hR⟩

theorem fail {e : ε} (h : P e) : (Change.fail e : Change ε σ α).GivesUnless P s R :=
  .inr ⟨e, rfl, h⟩

theorem bind (hc : c.GivesUnless P s R) (hf : ∀ a t, c.Gives s a t → R a t → (f a).GivesUnless P t T) :
    (c >>= f).GivesUnless P s T := by
  rcases hc with ⟨a, t, ha, hR⟩ | ⟨e, he, hP⟩
  · rcases hf a t ha hR with ⟨b, u, hb, hT⟩ | ⟨e, he, hP⟩
    · exact .inl ⟨b, u, gives_bind.mpr ⟨a, t, ha, hb⟩, hT⟩
    · refine .inr ⟨e, ?_, hP⟩
      show (Change.bind c f s).result = _
      obtain ⟨hresult, rfl⟩ := ha
      rw [Change.bind, hresult]
      exact he
  · exact .inr ⟨e, result_bind_error he, hP⟩

theorem after {a : α} (h : c.Gives s a t) (hf : (f a).GivesUnless P t T) : (c >>= f).GivesUnless P s T :=
  bind (R := fun b u => b = a ∧ u = t) (of_gives h ⟨rfl, rfl⟩) fun _ _ _ ⟨hb, hu⟩ => by rwa [hb, hu]

theorem after_modify {g : σ → σ} {f : Unit → Change ε σ β} (hf : (f ()).GivesUnless P (g s) T) :
    (modify g >>= f).GivesUnless P s T :=
  after (gives_modify (u := ()).mpr rfl) hf

theorem after_report {e : Event} {f : Unit → Change ε σ β} (hf : (f ()).GivesUnless P s T) :
    (report e >>= f).GivesUnless P s T :=
  after (gives_report (u := ()).mpr rfl) hf

theorem gather_cons {g : α → Change ε σ (Option β)} {a : α} {l : List α} {R : Option β → σ → Prop}
    {T : List β → σ → Prop} (ha : (g a).GivesUnless P s R)
    (hl : ∀ b t, (g a).Gives s b t → R b t → (gather g l).GivesUnless P t fun bs u => T (b.toList ++ bs) u) :
    (gather g (a :: l)).GivesUnless P s T :=
  ha.bind fun b t hb hR => (hl b t hb hR).bind fun _ _ _ hT => of_gives (gives_pure.mpr ⟨rfl, rfl⟩) hT

end GivesUnless

theorem FailsWithin.givesUnless {c : Change ε σ α} (h : c.FailsWithin P s) (hR : ∀ a t, c.Gives s a t → R a t) :
    c.GivesUnless P s R := by
  unfold FailsWithin at h
  cases hc : (c s).result with
  | ok a => exact .of_gives ⟨hc, rfl⟩ (hR a _ ⟨hc, rfl⟩)
  | error e =>
    rw [hc] at h
    exact .inr ⟨e, hc, h⟩

end Unless

end Change

/-! ### Errors that are not about a file -/

/-- Not an error about the loading of a file. -/
def Error.IsInner : Error → Prop
  | .load .. => False
  | _ => True

/-- Neither about the loading of a file nor about the name of an index. -/
def Error.IsOrdinary : Error → Prop
  | .load .. => False
  | .constraint (.duplicateIndexName ..) => False
  | _ => True

/-- Among the errors of which `P` holds are all ordinary ones. -/
class Error.Allows (P : Error → Prop) : Prop where
  ordinary : ∀ e : Error, e.IsOrdinary → P e

open Error (IsInner IsOrdinary Allows)

@[simp] theorem Error.isInner_constraint (e : ConstraintError) : IsInner (.constraint e) := trivial

theorem Error.IsOrdinary.isInner {e : Error} (h : IsOrdinary e) : IsInner e := by
  cases e with
  | load p cause => exact h
  | _ => trivial

instance : Allows IsInner where
  ordinary _ := Error.IsOrdinary.isInner

@[simp] theorem Error.isOrdinary_reference (e : ReferenceError) : IsOrdinary (.reference e) := trivial

@[simp] theorem Error.isOrdinary_configuration (e : ConfigurationError) : IsOrdinary (.configuration e) := trivial

@[simp] theorem Error.isOrdinary_constraint {e : ConstraintError}
    (h : ∀ name table, e ≠ .duplicateIndexName name table) :
    IsOrdinary (.constraint e) := by
  cases e with
  | duplicateIndexName name table => exact absurd rfl (h name table)
  | _ => trivial

@[simp] theorem readOptional_fails {P : Error → Prop} {f : α → Except Error β} (hf : ∀ a, FailsWithin P (f a))
    (x : Option α) : FailsWithin P (readOptional f x) := by
  cases x with
  | none => simp [readOptional]
  | some a => simp [readOptional, hf]

section Ordinary
variable {P : Error → Prop} [Allows P]

/-- Whatever `P` is, these errors are among those of which it holds. -/
@[simp] theorem failsWithin_of_isOrdinary {e : Error} (h : e.IsOrdinary) : FailsWithin P (.error e : Except Error α) :=
  Allows.ordinary e h

/-! ### Spellings and scalars -/

@[simp] theorem readColumnType_fails (s : String) : FailsWithin P (readColumnType s) := by
  unfold readColumnType
  split <;> simp

@[simp] theorem readIdMethod_fails (s : String) : FailsWithin P (readIdMethod s) := by
  unfold readIdMethod
  split <;> simp

@[simp] theorem readStringFormat_fails (s : String) : FailsWithin P (readStringFormat s) := by
  unfold readStringFormat
  split <;> simp

@[simp] theorem readVisibility_fails (s : String) : FailsWithin P (readVisibility s) := by
  unfold readVisibility
  split <;> simp

@[simp] theorem readAction_fails (s : Option String) : FailsWithin P (readAction s) := by
  unfold readAction
  split
  · simp
  · split <;> simp

@[simp] theorem readScalar_fails (j : Json) (e : ConfigurationError) : FailsWithin P (readScalar j e) := by
  unfold readScalar
  split <;> simp

@[simp] theorem Vendor.ofDecl_fails (v : VendorDecl) : FailsWithin P (Vendor.ofDecl v) := by
  simp [Vendor.ofDecl]

@[simp] theorem Default.ofDecl_fails (owner : DefaultOwner) (value : Option Json) (expr : Option String) :
    FailsWithin P (Default.ofDecl owner value expr) := by
  unfold Default.ofDecl
  split <;> simp

/-! ### Parts of tables -/

@[simp] theorem Domain.ofDecl_fails (m : DomainDecl) : FailsWithin P (Domain.ofDecl m) := by
  simp [Domain.ofDecl]

@[simp] theorem baseDomain_fails (d : Database) (table : String) (c : ColumnDecl) :
    FailsWithin P (baseDomain d table c) := by
  unfold baseDomain
  split
  · simp
  · split <;> simp

@[simp] theorem columnDomain_fails (d : Database) (table : String) (c : ColumnDecl) :
    FailsWithin P (columnDomain d table c) := by
  simp [columnDomain]

@[simp] theorem Column.addClass_fails (c : Column) (i : InheritanceClass) : FailsWithin P (c.addClass i) := by
  unfold Column.addClass
  split <;> simp

@[simp] theorem addClasses_fails (owner : DefaultOwner) (l : List InheritanceDecl) (c : Column) :
    FailsWithin P (addClasses owner c l) := by
  induction l generalizing c with
  | nil => simp [addClasses]
  | cons i l ih => simp [addClasses, ih]

@[simp] theorem Column.ofDecl_fails (d : Database) (table : String) (c : ColumnDecl) :
    FailsWithin P (Column.ofDecl d table c) := by
  simp [Column.ofDecl]

@[simp] theorem ForeignKey.ofDecl_fails (table : String) (k : ForeignKeyDecl) :
    FailsWithin P (ForeignKey.ofDecl table k) := by
  simp [ForeignKey.ofDecl]

@[simp] theorem Index.ofDecl_fails (i : IndexDecl) : FailsWithin P (Index.ofDecl i) := by
  simp [Index.ofDecl]

@[simp] theorem Registry.create_fails (r : Registry) (name : String) : FailsWithin P (r.create name) := by
  unfold Registry.create
  split <;> simp

@[simp] theorem Behavior.ofDecl_fails (r : Registry) (b : BehaviorDecl) :
    FailsWithin P (Behavior.ofDecl r b) := by
  simp [Behavior.ofDecl]

@[simp] theorem Behavior.attach_fails (owner : BehaviorOwner) (bs : List Behavior) (b : Behavior) :
    FailsWithin P (Behavior.attach owner bs b) := by
  unfold Behavior.attach
  split
  · split <;> simp
  · split <;> simp

/-! ### Tables -/

@[simp] theorem Table.addColumn_fails (t : Table) (c : Column) : FailsWithin P (t.addColumn c) := by
  unfold Table.addColumn
  split <;> simp

@[simp] theorem Table.addForeignKey_fails (t : Table) (k : ForeignKey) : FailsWithin P (t.addForeignKey k) := by
  unfold Table.addForeignKey
  split <;> simp

@[simp] theorem Table.addBehavior_fails (t : Table) (b : Behavior) : FailsWithin P (t.addBehavior b) := by
  simp [Table.addBehavior]

@[simp] theorem IdParameter.ofDecl_fails (table : String) (p : IdParameterDecl) :
    FailsWithin P (IdParameter.ofDecl table p) := by
  simp [IdParameter.ofDecl]

@[simp] theorem OwnSettings.ofDecl_fails (t : TableDecl) : FailsWithin P (OwnSettings.ofDecl t) := by
  simp [OwnSettings.ofDecl]

/-! ### Databases -/

@[simp] theorem Database.addDomain_fails (d : Database) (m : Domain) : FailsWithin P (d.addDomain m) := by
  unfold Database.addDomain
  split
  · simp
  · split <;> simp

@[simp] theorem Database.addTable_fails (d : Database) (t : Table) : FailsWithin P (d.addTable t) := by
  unfold Database.addTable
  split <;> simp

@[simp] theorem Database.addBehavior_fails (d : Database) (b : Behavior) : FailsWithin P (d.addBehavior b) := by
  simp [Database.addBehavior]

@[simp] theorem Settings.ofDecl_fails (s : SchemaDecl) : FailsWithin P (Settings.ofDecl s) := by
  simp [Settings.ofDecl]

@[simp] theorem Database.head_fails (s : SchemaDecl) : FailsWithin P (Database.head s) := by
  simp [Database.head]

@[simp] theorem Database.addSettings_fails (r : Registry) (s : SchemaDecl) (d : Database) :
    FailsWithin P (d.addSettings r s) := by
  simp [Database.addSettings]

@[simp] theorem Schema.checkQualifiedNames_fails (s : Schema) : FailsWithin P s.checkQualifiedNames := by
  unfold Schema.checkQualifiedNames
  split <;> simp

/-! ### Includes of a database -/

open Change

theorem Schema.addTablesAt_fails (pos : Nat) (ts : List Table) (ds : List Database) :
    (Schema.addTablesAt pos ts).FailsWithin P ds :=
  .forEach (fun t _ _ => .atPosition fun d _ => failsWithin_attempt (Database.addTable_fails d t)) ds

theorem Schema.mergeDatabase_fails (source : Database) (referenceOnly : Bool) (ds : List Database) :
    (Schema.mergeDatabase source referenceOnly).FailsWithin P ds := by
  refine .of_get ?_
  dsimp only
  split
  · exact Schema.addTablesAt_fails _ _ _
  · exact (failsWithin_modify _).bind fun _ ds _ => Schema.addTablesAt_fails _ _ ds

theorem Schema.addInclude_fails (i : Included Schema) (s : Schema) : (Schema.addInclude i).FailsWithin P s := by
  refine FailsWithin.bind (FailsWithin.within ?_) fun _ _ _ => ?_
  · exact .forEach (fun d _ ds => Schema.mergeDatabase_fails d i.referenceOnly ds) _
  · exact (failsWithin_report _).bind fun _ _ _ => failsWithin_modify _

/-- Declared tables are added where each can be built. -/
theorem Database.addDeclaredTables_fails {r : Registry} {referenceOnly : Bool} {ts : List TableDecl}
    (h : ∀ t ∈ ts, ∀ d, Schemata.FailsWithin P (Table.ofDecl r d referenceOnly t)) (d : Database) :
    (Database.addDeclaredTables r referenceOnly ts).FailsWithin P d := by
  refine (FailsWithin.forEach (fun t ht d => ?_) d).bind fun _ _ _ => .of_get (failsWithin_report _)
  refine .of_get ((failsWithin_ofExcept (h t ht d)).bind fun table _ _ => ?_)
  exact (failsWithin_report _).bind fun _ d _ => failsWithin_attempt (Database.addTable_fails d table)

theorem mergeIncludes_fails (location : Option Path) (referenceOnly : Bool) (d : Database)
    (included : List (Included Schema)) (v : Visits) :
    (mergeIncludes location referenceOnly d included).FailsWithin P v := by
  refine (FailsWithin.starting (.forEach (fun i _ => Schema.addInclude_fails i) _)).bind fun p v _ => ?_
  exact (failsWithin_ofExcept (Schema.checkQualifiedNames_fails p.2)).bind fun _ _ _ => failsWithin_pure _

end Ordinary

/-! ### Tables with their indices -/

@[simp] theorem Table.checkedIndex_fails (t : Table) (kind : IndexKind) (i : Index) :
    FailsWithin IsInner (t.checkedIndex kind i) := by
  unfold Table.checkedIndex
  split
  · simp
  · split
    · simp
    · dsimp only
      split <;> simp

@[simp] theorem Table.addIndex_fails (t : Table) (i : Index) : FailsWithin IsInner (t.addIndex i) := by
  simp [Table.addIndex]

@[simp] theorem Table.addUnique_fails (t : Table) (i : Index) : FailsWithin IsInner (t.addUnique i) := by
  simp [Table.addUnique]

@[simp] theorem Table.ofDecl_fails (r : Registry) (d : Database) (referenceOnly : Bool) (t : TableDecl) :
    FailsWithin IsInner (Table.ofDecl r d referenceOnly t) := by
  simp [Table.ofDecl]

end Schemata
