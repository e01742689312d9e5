import Mathlib.Logic.Relation
import Schemata.Proofs.Asked

/-!
# The graph of includes

Files and what they include form a graph. Building searches it depth first: a file that is included is
on the stack, which is an error, or done, or new. Nothing below a file that is done goes on without
end, so a schema is only built from files that include one another without a cycle.
-/

namespace Schemata

open Change Relation

/-! ### Files and what they include -/

section Graph
variable {source : Option Path → Option SchemaDecl} {x y : Option Path}

/-- The file `x` has an include that leads to the file `y`, where `source` gives what is in a file. -/
def Includes (source : Option Path → Option SchemaDecl) (x y : Option Path) : Prop :=
  ∃ decl i p, source x = some decl ∧ i ∈ decl.includes ∧ resolveInclude x i.filename = .ok p ∧
    y.map Path.components = some p.components

/-- No includes go on without end from the file `x`. -/
def Grounded (source : Option Path → Option SchemaDecl) (x : Option Path) : Prop :=
  Acc (fun y x => Includes source x y) x

theorem Grounded.not_cyclic (h : Grounded source x) : ¬TransGen (Includes source) x x := by
  induction h with
  | intro x _ ih =>
    intro hcycle
    obtain ⟨y, hxy, hyx⟩ := TransGen.head'_iff.mp hcycle
    exact ih y hxy (TransGen.tail' hyx hxy)

theorem Grounded.of_reached (h : Grounded source x) (hxy : ReflTransGen (Includes source) x y) : Grounded source y := by
  induction hxy with
  | refl => exact h
  | tail _ hyz ih => exact ih.inv hyz

theorem Includes.of_same {p q : Path} (h : Includes source x (some p)) (hpq : p.components = q.components) :
    Includes source x (some q) := by
  obtain ⟨decl, i, r, hdecl, hi, hr, hp⟩ := h
  exact ⟨decl, i, r, hdecl, hi, hr, (congrArg some hpq.symm).trans hp⟩

/-- What is in a file does not depend on the text of its path. -/
def Respectful (source : Option Path → Option SchemaDecl) : Prop :=
  ∀ p q : Path, p.components = q.components → source (some p) = source (some q)

/-- What a file includes does not depend on the text of its path either. -/
theorem Includes.congr (hsource : Respectful source) {p q : Path} (hpq : p.components = q.components)
    (h : Includes source (some q) y) : Includes source (some p) y := by
  obtain ⟨decl, i, q', hdecl, hi, hq', hy⟩ := h
  obtain ⟨p', q'', hp', hq'', hcomps⟩ := resolveInclude_same hpq i.filename
  obtain rfl := Except.ok.inj (hq'.symm.trans hq'')
  exact ⟨decl, i, p', (hsource p q hpq).trans hdecl, hi, hp', hy.trans (congrArg some hcomps.symm)⟩

theorem Grounded.congr (hsource : Respectful source) {p q : Path} (hpq : p.components = q.components)
    (h : Grounded source (some p)) : Grounded source (some q) :=
  Acc.intro _ fun _ hy => h.inv (hy.congr hsource hpq)

end Graph

/-! ### The stack of the search -/

section Stack
variable {source : Option Path → Option SchemaDecl} {start x : Option Path} {v w : Visits} {p : Path}

theorem isBuilding_congr (h : w.building = v.building) (q : Path) : w.isBuilding q = v.isBuilding q := by
  rw [Visits.isBuilding, Visits.isBuilding, h]

theorem isBuilding_visit {q : Path} : (v.visit p).isBuilding q = (p.same q || v.isBuilding q) := rfl

/-- The file with which everything begins is on the stack. -/
def HasStart (start : Option Path) (v : Visits) : Prop :=
  ∀ p, start = some p → v.isBuilding p = true

theorem HasStart.of_building (h : HasStart start v) (hw : w.building = v.building) : HasStart start w :=
  fun q hq => (isBuilding_congr hw q).trans (h q hq)

theorem HasStart.visit (h : HasStart start v) (p : Path) : HasStart start (v.visit p) :=
  fun q hq => by rw [isBuilding_visit, h q hq, Bool.or_true]

/-- Apart from the first file, `source` gives what the library has. -/
def Stored (l : Library) (source : Option Path → Option SchemaDecl) (start : Option Path) : Prop :=
  ∀ p, start.map Path.components ≠ some p.components → source (some p) = (loadDecl l p).toOption

theorem HasStart.ne (hstart : HasStart start v) (hfree : v.isBuilding p = false) :
    start.map Path.components ≠ some p.components := by
  intro heq
  obtain ⟨q, rfl, hqp⟩ := Option.map_eq_some_iff.mp heq
  have hstack := hstart q rfl
  rw [Visits.isBuilding_eq_false, ← hqp, ← Visits.isBuilding_eq_false, hstack] at hfree
  cases hfree

/-- What is put on the stack is not the first file, so it is what the library has. -/
theorem Stored.source_eq {l : Library} (hstored : Stored l source start) (hstart : HasStart start v)
    (hfree : v.isBuilding p = false) {decl : SchemaDecl} (hdecl : loadDecl l p = .ok decl) :
    source (some p) = some decl := by
  rw [hstored p (hstart.ne hfree), hdecl]
  rfl

theorem Stored.loadDecl_eq {l : Library} (hstored : Stored l source start) (hstart : HasStart start v)
    (hfree : v.isBuilding p = false) {decl : SchemaDecl} (hsource : source (some p) = some decl) :
    loadDecl l p = .ok decl := by
  rw [hstored p (hstart.ne hfree)] at hsource
  cases hload : loadDecl l p with
  | ok found =>
    rw [hload] at hsource
    exact congrArg Except.ok (Option.some.inj hsource)
  | error e =>
    rw [hload] at hsource
    cases hsource

end Stack

/-! ### What is done -/

/-- Of the loaded files those that are not on the stack are done. -/
structure Explored (source : Option Path → Option SchemaDecl) (start : Option Path) (v : Visits) : Prop where
  hasStart : HasStart start v
  done : ∀ p, v.isLoaded p = true → v.isBuilding p = true ∨ Grounded source (some p)

section Search
variable {r : Registry} {l : Library} {source : Option Path → Option SchemaDecl} {start : Option Path}

theorem Explored.visit {v : Visits} (h : Explored source start v) (p : Path) : Explored source start (v.visit p) where
  hasStart := h.hasStart.visit p
  done q hq := by
    have hq' : (p.same q || v.isLoaded q) = true := hq
    rw [isBuilding_visit]
    rcases Bool.or_eq_true_iff.mp hq' with hpq | hloaded
    · exact .inl (by rw [hpq, Bool.true_or])
    · rcases h.done q hloaded with hbuilding | hdone
      · exact .inl (by rw [hbuilding, Bool.or_true])
      · exact .inr hdone

/-- When a file is done it may leave the stack. -/
theorem Explored.leave (hsource : Respectful source) {v w : Visits} {p : Path} (h : Explored source start v)
    (hw : Explored source start w) (hbuilding : w.building = (v.visit p).building) (hp : Grounded source (some p)) :
    Explored source start w.leave := by
  have hleave : w.leave.building = v.building := by rw [Visits.leave, hbuilding]; rfl
  refine ⟨h.hasStart.of_building hleave, fun q hq => ?_⟩
  rcases hw.done q hq with hstack | hdone
  · rw [isBuilding_congr hbuilding, isBuilding_visit] at hstack
    rcases Bool.or_eq_true_iff.mp hstack with hpq | hstack
    · exact .inr (hp.congr hsource (Path.same_iff.mp hpq))
    · exact .inl ((isBuilding_congr hleave q).trans hstack)
  · exact .inr hdone

section Step
variable {build : SchemaDecl → Path → Bool → Edit Visits Schema}
  (hsource : Respectful source)
  (hstored : Stored l source start)
  (hbuilding : ∀ decl p b v schema w, (build decl p b).Gives v schema w → w.building = v.building)
  (hbuild : ∀ decl p b v schema w, source (some p) = some decl → Explored source start v →
    (build decl p b).Gives v schema w → Explored source start w ∧ Grounded source (some p))
include hsource hstored hbuilding hbuild

theorem explored_buildInclude {x : Option Path} {i : IncludeDecl} {v w : Visits} {included : Option (Included Schema)}
    (hv : Explored source start v) (h : (buildInclude l build x i).Gives v included w) :
    Explored source start w ∧ ∃ p, resolveInclude x i.filename = .ok p ∧ Grounded source (some p) := by
  obtain ⟨p, hp, hfree, ⟨hloaded, -, rfl⟩ | ⟨-, decl, schema, u, hdecl, hschema, -, rfl⟩⟩ := gives_buildInclude h
  · rcases hv.done p hloaded with hstack | hdone
    · rw [hfree] at hstack
      cases hstack
    · exact ⟨hv, p, hp, hdone⟩
  · have hfile := hstored.source_eq hv.hasStart hfree hdecl
    obtain ⟨hu, hdone⟩ := hbuild decl p i.referenceOnly _ schema u hfile (hv.visit p) hschema
    exact ⟨hv.leave hsource hu (hbuilding _ _ _ _ _ _ hschema) hdone, p, hp, hdone⟩

theorem explored_buildDecl {x : Option Path} {decl : SchemaDecl} {referenceOnly : Bool} {v w : Visits} {schema : Schema}
    (hx : source x = some decl) (hv : Explored source start v)
    (h : (buildDecl r l build decl x referenceOnly).Gives v schema w) :
    Explored source start w ∧ Grounded source x := by
  obtain ⟨included, -, -, -, hincluded, -⟩ := gives_buildDecl h
  obtain ⟨hw, hall⟩ := Gives.gather
    (fun i _ u y u' hu hi => explored_buildInclude hsource hstored hbuilding hbuild hu hi) hv hincluded
  refine ⟨hw, Acc.intro _ fun y hy => ?_⟩
  -- An edge from `x` is an include of its declaration, and all of these were explored.
  obtain ⟨decl', i, p, hdecl, hi, hp, hy⟩ := hy
  obtain rfl := Option.some.inj (hx.symm.trans hdecl)
  obtain ⟨q, rfl, hqp⟩ := Option.map_eq_some_iff.mp hy
  obtain ⟨p', hp', hdone⟩ := hall i hi
  obtain rfl := Except.ok.inj (hp.symm.trans hp')
  exact hdone.congr hsource hqp.symm

end Step

/-- What is built is explored, and nothing below it goes on without end. -/
theorem explored_buildNested (hsource : Respectful source) (hstored : Stored l source start) {depth : Nat}
    {x : Option Path} {decl : SchemaDecl} {referenceOnly : Bool} {v w : Visits} {schema : Schema}
    (hx : source x = some decl) (hv : Explored source start v)
    (h : (buildNested r l depth decl x referenceOnly).Gives v schema w) :
    Explored source start w ∧ Grounded source x := by
  induction depth generalizing x decl referenceOnly v w schema with
  | zero =>
    refine explored_buildDecl hsource hstored ?_ ?_ hx hv h
    · exact fun _ _ _ _ _ _ hfail => absurd hfail not_gives_fail
    · exact fun _ _ _ _ _ _ _ _ hfail => absurd hfail not_gives_fail
  | succ depth ih =>
    refine explored_buildDecl hsource hstored ?_ ?_ hx hv h
    · exact fun _ _ _ _ _ _ hschema => building_buildNested hschema
    · exact fun _ _ _ _ _ _ hfile hu hschema => ih hfile hu hschema

end Search

/-! ### What is on the way -/

/-- From the first file there is a way to each file on the stack, and from there to the file `x`. -/
structure OnWay (source : Option Path → Option SchemaDecl) (start x : Option Path) (v : Visits) : Prop where
  hasStart : HasStart start v
  reached : ReflTransGen (Includes source) start x
  through : ∀ q ∈ v.building, ReflTransGen (Includes source) start (some q) ∧ ReflTransGen (Includes source) (some q) x

/-- An error that says that a file includes itself is right: there is a cycle. -/
def Error.IsHonest (source : Option Path → Option SchemaDecl) (start : Option Path) (e : Error) : Prop :=
  ∀ p, e = .load p .includesItself →
    ∃ x, ReflTransGen (Includes source) start x ∧ TransGen (Includes source) x x

section Way
variable {r : Registry} {l : Library} {source : Option Path → Option SchemaDecl} {start x : Option Path} {v w : Visits}

theorem OnWay.of_building (h : OnWay source start x v) (hw : w.building = v.building) : OnWay source start x w :=
  ⟨h.hasStart.of_building hw, h.reached, hw ▸ h.through⟩

theorem OnWay.visit (h : OnWay source start x v) {p : Path} (hp : Includes source x (some p)) :
    OnWay source start (some p) (v.visit p) where
  hasStart := h.hasStart.visit p
  reached := h.reached.tail hp
  through q hq := by
    rcases List.mem_cons.mp hq with rfl | hq
    · exact ⟨h.reached.tail hp, .refl⟩
    · exact ⟨(h.through q hq).1, (h.through q hq).2.tail hp⟩

/-- An include that leads to a file on the stack closes a cycle. -/
theorem OnWay.cyclic (h : OnWay source start x v) {decl : SchemaDecl} (hx : source x = some decl) {i : IncludeDecl}
    (hi : i ∈ decl.includes) {p : Path} (hp : resolveInclude x i.filename = .ok p) (hbuilding : v.isBuilding p = true) :
    ∃ y, ReflTransGen (Includes source) start y ∧ TransGen (Includes source) y y := by
  obtain ⟨q, hq, hsame⟩ := List.any_eq_true.mp hbuilding
  obtain ⟨hreached, hway⟩ := h.through q hq
  have hback : Includes source x (some q) := ⟨decl, i, p, hx, hi, hp, congrArg some (Path.same_iff.mp hsame)⟩
  exact ⟨some q, hreached, TransGen.tail' hway hback⟩

open Error (IsHonest IsInner Allows)

theorem Error.IsInner.isHonest {e : Error} (h : IsInner e) : IsHonest source start e := by
  rintro p rfl
  exact absurd h id

instance : Allows (IsHonest source start) where
  ordinary _ he := (Error.IsOrdinary.isInner he).isHonest

theorem isHonest_load {p : Path} {cause : LoadError} (h : cause ≠ .includesItself) :
    IsHonest source start (.load p cause) := by
  rintro q heq
  cases heq
  exact absurd rfl h

/-- The table is declared in a file that is reached from the first one. -/
def Declares (source : Option Path → Option SchemaDecl) (start : Option Path) (t : TableDecl) : Prop :=
  ∃ x decl, ReflTransGen (Includes source) start x ∧ source x = some decl ∧ t ∈ decl.tables

/-! ### Errors of what is on the way -/

section Fails
variable {P : Error → Prop} [Allows P] (hstored : Stored l source start)
  (hload : ∀ p cause, l.load p = .error cause ∨ cause ≠ .includesItself → P (.load p cause))
  (hself : ∀ p, (∃ y, ReflTransGen (Includes source) start y ∧ TransGen (Includes source) y y) →
    P (.load p .includesItself))
  (htables : ∀ t, Declares source start t → ∀ d b, Schemata.FailsWithin P (Table.ofDecl r d b t))
include hstored hload hself htables

theorem buildDecl_fails_onWay {build : SchemaDecl → Path → Bool → Edit Visits Schema}
    (hkept : ∀ decl p b v schema w, (build decl p b).Gives v schema w → w.building = v.building)
    (hbuild : ∀ decl p b v, source (some p) = some decl → OnWay source start (some p) v →
      (build decl p b).FailsWithin P v)
    {decl : SchemaDecl} (referenceOnly : Bool) (hx : source x = some decl) (hv : OnWay source start x v) :
    (buildDecl r l build decl x referenceOnly).FailsWithin P v := by
  refine buildDecl_fails (I := fun u => OnWay source start x u) ?_ ?_ ?_ hv
  · exact fun t ht d => htables t ⟨x, decl, hv.reached, hx, ht⟩ d referenceOnly
  · intro i hi u hu
    refine buildInclude_fails (resolveInclude_fails (fun p => hload p _ (.inr (by simp))) _) ?_ ?_ ?_
    · intro p hp hbuilding
      exact hself p (hu.cyclic hx hi hp hbuilding)
    · intro p
      exact loadDecl_fails (fun e he => hload p e (.inl he)) fun e => hload p _ (.inr (by simp))
    · intro p inner hp hfree hinner
      have hnext : Includes source x (some p) := ⟨decl, i, p, hx, hi, hp, rfl⟩
      exact hbuild inner p _ _ (hstored.source_eq hu.hasStart hfree hinner) (hu.visit hnext)
  · exact fun i _ u y w hu hi => hu.of_building (building_buildInclude hkept hi)

theorem buildNested_fails_onWay (depth : Nat) {decl : SchemaDecl} (referenceOnly : Bool) (hx : source x = some decl)
    (hv : OnWay source start x v) : (buildNested r l depth decl x referenceOnly).FailsWithin P v := by
  induction depth generalizing x decl referenceOnly v with
  | zero =>
    refine buildDecl_fails_onWay hstored hload hself htables ?_ ?_ referenceOnly hx hv
    · exact fun _ _ _ _ _ _ hfail => absurd hfail not_gives_fail
    · exact fun _ p _ _ _ _ => hload p _ (.inr (by simp))
  | succ depth ih =>
    refine buildDecl_fails_onWay hstored hload hself htables ?_ ?_ referenceOnly hx hv
    · exact fun _ _ _ _ _ _ hschema => building_buildNested hschema
    · exact fun _ _ b _ hfile hway => ih b hfile hway

end Fails

theorem buildNested_isHonest (hstored : Stored l source start)
    (hload : ∀ p e, l.load p = .error e → e ≠ .includesItself) (depth : Nat) {decl : SchemaDecl} (referenceOnly : Bool)
    (hx : source x = some decl) (hv : OnWay source start x v) :
    (buildNested r l depth decl x referenceOnly).FailsWithin (IsHonest source start) v := by
  refine buildNested_fails_onWay hstored ?_ ?_ ?_ depth referenceOnly hx hv
  · rintro p cause (hcause | hcause)
    · exact isHonest_load (hload p cause hcause)
    · exact isHonest_load hcause
  · exact fun _ hcyclic _ _ => hcyclic
  · exact fun t _ d b => (Table.ofDecl_fails r d b t).mono fun _ => Error.IsInner.isHonest

end Way

end Schemata
