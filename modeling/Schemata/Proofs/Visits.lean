import Mathlib.Data.List.Perm.Subperm
import Schemata.Proofs.Failures
import Schemata.Proofs.Paths

/-!
# Visits of files

An included file is on the stack of files while it is built, and it stays among the loaded ones. The
stack holds no file twice, and only files that were found; so it grows no longer than there are files,
and building ends before the bound on the depth is reached.
-/

namespace Schemata

open Change

variable {r : Registry} {l : Library} {build : SchemaDecl → Path → Bool → Edit Visits Schema} {location : Option Path}

namespace Visits

/-- The visits while a file is built that was not loaded before. -/
def visit (v : Visits) (p : Path) : Visits :=
  ({ v with loaded := p :: v.loaded } : Visits).enter p

theorem isBuilding_eq_false {v : Visits} {p : Path} :
    v.isBuilding p = false ↔ p.components ∉ v.building.map Path.components :=
  Path.any_same_eq_false

theorem isLoaded_eq_false {v : Visits} {p : Path} :
    v.isLoaded p = false ↔ p.components ∉ v.loaded.map Path.components :=
  Path.any_same_eq_false

theorem isLoaded_iff {v : Visits} {p : Path} : v.isLoaded p = true ↔ ∃ q ∈ v.loaded, q.components = p.components := by
  rw [isLoaded, List.any_eq_true]
  exact exists_congr fun q => and_congr_right fun _ => Path.same_iff

theorem nodup_start (start : Option Path) : (start.toList.map Path.components).Nodup := by
  cases start with
  | none => exact List.nodup_nil
  | some p => exact List.nodup_cons.mpr ⟨List.not_mem_nil, List.nodup_nil⟩

end Visits

/-! ### When an include is built -/

theorem gives_buildInclude {i : IncludeDecl} {v w : Visits} {x : Option (Included Schema)}
    (h : (buildInclude l build location i).Gives v x w) :
    ∃ p, resolveInclude location i.filename = .ok p ∧ v.isBuilding p = false ∧
      ((v.isLoaded p = true ∧ x = none ∧ w = v) ∨
        (v.isLoaded p = false ∧ ∃ decl schema u, loadDecl l p = .ok decl ∧
          (build decl p i.referenceOnly).Gives (v.visit p) schema u ∧ x = some ⟨p, i.referenceOnly, schema⟩ ∧
          w = u.leave)) := by
  simp only [buildInclude, gives_bind, gives_ofExcept, gives_get] at h
  obtain ⟨p, _, ⟨hp, rfl⟩, _, _, ⟨rfl, rfl⟩, h⟩ := h
  refine ⟨p, hp, ?_⟩
  split at h
  · exact absurd h not_gives_fail
  · rename_i hbuilding
    refine ⟨by simpa using hbuilding, ?_⟩
    split at h
    · rename_i hloaded
      simp only [gives_bind, gives_report, gives_pure] at h
      obtain ⟨-, _, rfl, rfl, rfl⟩ := h
      exact .inl ⟨hloaded, rfl, rfl⟩
    · rename_i hloaded
      simp only [gives_bind, gives_report, gives_pure, gives_modify, gives_ofExcept] at h
      obtain ⟨-, _, rfl, -, _, rfl, decl, _, ⟨hdecl, rfl⟩, -, _, rfl, schema, u, hbuild, -, _, rfl, rfl, rfl⟩ := h
      exact .inr ⟨by simpa using hloaded, decl, schema, u, hdecl, hbuild, rfl, rfl⟩

theorem gives_mergeIncludes {referenceOnly : Bool} {d : Database} {included : List (Included Schema)} {v w : Visits}
    {schema : Schema} :
    (mergeIncludes location referenceOnly d included).Gives v schema w ↔
      (forEach Schema.addInclude included).Gives
          { location := location, referenceOnly := referenceOnly, databases := [d] } () schema ∧
        schema.checkQualifiedNames = .ok () ∧ w = v := by
  simp only [mergeIncludes, gives_bind, gives_ofExcept]
  constructor
  · rintro ⟨⟨_, m⟩, _, hm, ⟨⟩, _, ⟨hnames, rfl⟩, hw⟩
    obtain ⟨hmerged, rfl⟩ := gives_starting.mp hm
    obtain ⟨rfl, rfl⟩ := gives_pure.mp hw
    exact ⟨hmerged, hnames, rfl⟩
  · rintro ⟨hmerged, hnames, rfl⟩
    exact ⟨((), schema), w, gives_starting.mpr ⟨hmerged, rfl⟩, (), w, ⟨hnames, rfl⟩, gives_pure.mpr ⟨rfl, rfl⟩⟩

/-- A file is built where its includes are; what comes after them leaves the visits alone. The own tables are
    added to what the head of the declaration gives, and the includes are merged into that. -/
theorem merges_of_buildDecl {decl : SchemaDecl} {referenceOnly : Bool} {v w : Visits} {schema : Schema}
    (h : (buildDecl r l build decl location referenceOnly).Gives v schema w) :
    ∃ included head equipped d, (gather (buildInclude l build location) decl.includes).Gives v included w ∧
      Database.head decl = .ok head ∧ head.addSettings r decl = .ok equipped ∧
      (Database.addDeclaredTables r referenceOnly decl.tables).Gives equipped () d ∧
      (mergeIncludes location referenceOnly d included).Gives w schema w := by
  simp only [buildDecl, gives_bind, gives_ofExcept] at h
  obtain ⟨head, _, ⟨hhead, rfl⟩, included, w', hincluded, equipped, _, ⟨hequipped, rfl⟩, ⟨_, d⟩, _, hd, hmerged⟩ := h
  obtain ⟨htables, rfl⟩ := gives_starting.mp hd
  obtain ⟨-, -, rfl⟩ := gives_mergeIncludes.mp hmerged
  exact ⟨included, head, equipped, d, hincluded, hhead, hequipped, htables, hmerged⟩

theorem gives_buildDecl {decl : SchemaDecl} {referenceOnly : Bool} {v w : Visits} {schema : Schema}
    (h : (buildDecl r l build decl location referenceOnly).Gives v schema w) :
    ∃ included head equipped d, (gather (buildInclude l build location) decl.includes).Gives v included w ∧
      Database.head decl = .ok head ∧ head.addSettings r decl = .ok equipped ∧
      (Database.addDeclaredTables r referenceOnly decl.tables).Gives equipped () d ∧
      (forEach Schema.addInclude included).Gives
        { location := location, referenceOnly := referenceOnly, databases := [d] } () schema := by
  obtain ⟨included, head, equipped, d, hincluded, hhead, hequipped, htables, hmerged⟩ := merges_of_buildDecl h
  exact ⟨included, head, equipped, d, hincluded, hhead, hequipped, htables, (gives_mergeIncludes.mp hmerged).1⟩

/-! ### Building, unless it fails -/

section Unless
variable {P : Error → Prop} {i : IncludeDecl} {p : Path} {v : Visits}

theorem buildInclude_again (hp : resolveInclude location i.filename = .ok p) (hfree : v.isBuilding p = false)
    (hloaded : v.isLoaded p = true) : (buildInclude l build location i).Gives v none v := by
  simp only [buildInclude, gives_bind, gives_ofExcept, gives_get]
  refine ⟨p, v, ⟨hp, rfl⟩, v, v, ⟨rfl, rfl⟩, ?_⟩
  rw [if_neg (by simp [hfree]), if_pos hloaded]
  exact gives_bind.mpr ⟨(), v, gives_report.mpr rfl, gives_pure.mpr ⟨rfl, rfl⟩⟩

theorem buildInclude_new (hp : resolveInclude location i.filename = .ok p) (hfree : v.isBuilding p = false)
    (hnew : v.isLoaded p = false) {decl : SchemaDecl} (hdecl : loadDecl l p = .ok decl)
    {Q : Schema → Visits → Prop} (hbuild : (build decl p i.referenceOnly).GivesUnless P (v.visit p) Q)
    {R : Option (Included Schema) → Visits → Prop}
    (hQ : ∀ s u, (build decl p i.referenceOnly).Gives (v.visit p) s u → Q s u →
      R (some ⟨p, i.referenceOnly, s⟩) u.leave) :
    (buildInclude l build location i).GivesUnless P v R := by
  refine .after (gives_ofExcept.mpr ⟨hp, rfl⟩) (.after (gives_get.mpr ⟨rfl, rfl⟩) ?_)
  rw [if_neg (by simp [hfree]), if_neg (by simp [hnew])]
  refine .after_modify (.after_report (.after (gives_ofExcept.mpr ⟨hdecl, rfl⟩) (.after_modify ?_)))
  refine .bind hbuild fun s u hs hsu => .after_modify ?_
  exact .of_gives (gives_pure.mpr ⟨rfl, rfl⟩) (hQ s u hs hsu)

theorem buildDecl_givesUnless {decl : SchemaDecl} {b : Bool} {head equipped d : Database}
    (hhead : Database.head decl = .ok head) (hequipped : head.addSettings r decl = .ok equipped)
    (htables : (Database.addDeclaredTables r b decl.tables).Gives equipped () d)
    {Q : List (Included Schema) → Visits → Prop}
    (hincluded : (gather (buildInclude l build location) decl.includes).GivesUnless P v Q) {R : Schema → Visits → Prop}
    (hmerge : ∀ included w, Q included w → ∃ s, (mergeIncludes location b d included).Gives w s w ∧ R s w) :
    (buildDecl r l build decl location b).GivesUnless P v R := by
  refine .after (gives_ofExcept.mpr ⟨hhead, rfl⟩) (.bind hincluded fun included w _ hQ => ?_)
  obtain ⟨s, hs, hR⟩ := hmerge included w hQ
  refine .after (gives_ofExcept.mpr ⟨hequipped, rfl⟩) (.after (gives_starting.mpr ⟨htables, rfl⟩) ?_)
  exact .of_gives hs hR

end Unless

/-! ### The stack -/

section Kept
variable (hbuild : ∀ decl p b v schema w, (build decl p b).Gives v schema w → w.building = v.building)
include hbuild

theorem building_buildInclude {i : IncludeDecl} {v w : Visits} {x : Option (Included Schema)}
    (h : (buildInclude l build location i).Gives v x w) : w.building = v.building := by
  obtain ⟨p, -, -, ⟨-, -, rfl⟩ | ⟨-, decl, schema, u, -, hschema, -, rfl⟩⟩ := gives_buildInclude h
  · rfl
  · rw [Visits.leave, hbuild _ _ _ _ _ _ hschema]
    rfl

theorem building_buildDecl {decl : SchemaDecl} {referenceOnly : Bool} {v w : Visits} {schema : Schema}
    (h : (buildDecl r l build decl location referenceOnly).Gives v schema w) : w.building = v.building := by
  obtain ⟨included, -, -, -, hincluded, -⟩ := gives_buildDecl h
  refine (Gives.gather (I := fun u => u.building = v.building) (Q := fun _ => True) ?_ rfl hincluded).1
  intro i _ u x u' hu hi
  exact ⟨(building_buildInclude hbuild hi).trans hu, trivial⟩

end Kept

/-- What is on the stack before a file is built is there again after it. -/
theorem building_buildNested {depth : Nat} {decl : SchemaDecl} {referenceOnly : Bool} {v w : Visits} {schema : Schema}
    (h : (buildNested r l depth decl location referenceOnly).Gives v schema w) : w.building = v.building := by
  induction depth generalizing decl location referenceOnly v w schema with
  | zero => exact building_buildDecl (fun _ _ _ _ _ _ hfail => absurd hfail not_gives_fail) h
  | succ depth ih => exact building_buildDecl (fun _ _ _ _ _ _ hschema => ih hschema) h

/-- How the files are built that a file includes, up to a depth. -/
def below (r : Registry) (l : Library) : Nat → SchemaDecl → Path → Bool → Edit Visits Schema
  | 0 => fun _ p _ => fail (.load p .tooDeep)
  | depth + 1 => fun decl p b => buildNested r l depth decl (some p) b

theorem buildNested_eq (depth : Nat) : buildNested r l depth = buildDecl r l (below r l depth) := by
  cases depth <;> rfl

theorem building_below {depth : Nat} {decl : SchemaDecl} {p : Path} {b : Bool} {v w : Visits} {s : Schema}
    (h : (below r l depth decl p b).Gives v s w) : w.building = v.building := by
  cases depth with
  | zero => exact absurd h not_gives_fail
  | succ depth => exact building_buildNested h

/-! ### When building fails -/

open Error (IsInner Allows)

section Fails
variable {P : Error → Prop}

theorem load_of_loadDecl {p : Path} {decl : SchemaDecl} (h : loadDecl l p = .ok decl) : ∃ j, l.load p = .ok j := by
  unfold loadDecl at h
  split at h
  · cases h
  · rename_i j hj
    exact ⟨j, hj⟩

theorem loadDecl_fails {p : Path} (hload : ∀ e, l.load p = .error e → P (.load p e))
    (hshape : ∀ e, P (.load p (.misshapen e))) : Schemata.FailsWithin P (loadDecl l p) := by
  unfold loadDecl
  split
  · rename_i e he
    exact hload e he
  · cases SchemaDecl.record.shape _ with
    | ok decl => trivial
    | error e => exact hshape e

theorem resolveInclude_fails (h : ∀ p, P (.load p .noLocation)) (filename : String) :
    Schemata.FailsWithin P (resolveInclude location filename) := by
  unfold resolveInclude
  dsimp only
  split
  · trivial
  · split
    · exact h _
    · trivial

theorem buildInclude_fails {i : IncludeDecl} {v : Visits}
    (hresolve : Schemata.FailsWithin P (resolveInclude location i.filename))
    (hself : ∀ p, resolveInclude location i.filename = .ok p → v.isBuilding p = true → P (.load p .includesItself))
    (hload : ∀ p, Schemata.FailsWithin P (loadDecl l p))
    (hbuild : ∀ p decl, resolveInclude location i.filename = .ok p → v.isBuilding p = false → loadDecl l p = .ok decl →
      (build decl p i.referenceOnly).FailsWithin P (v.visit p)) :
    (buildInclude l build location i).FailsWithin P v := by
  refine (failsWithin_ofExcept hresolve).bind fun p _ hgives => .of_get ?_
  obtain ⟨hp, rfl⟩ := gives_ofExcept.mp hgives
  split
  · rename_i hbuilding
    exact hself p hp hbuilding
  · rename_i hbuilding
    split
    · exact (failsWithin_report _).bind fun _ _ _ => failsWithin_pure _
    · refine (failsWithin_modify _).bind fun _ _ hloaded => (failsWithin_report _).bind fun _ _ hlogged => ?_
      obtain rfl := gives_modify.mp hloaded
      obtain rfl := gives_report.mp hlogged
      refine (failsWithin_ofExcept (hload p)).bind fun decl _ hgives => ?_
      obtain ⟨hdecl, rfl⟩ := gives_ofExcept.mp hgives
      refine (failsWithin_modify _).bind fun _ _ hentered => ?_
      obtain rfl := gives_modify.mp hentered
      have hschema := hbuild p decl hp (by simpa using hbuilding) hdecl
      exact hschema.bind fun _ _ _ => (failsWithin_modify _).bind fun _ _ _ => failsWithin_pure _

/-- Only the includes of a declaration and the indices of its tables make building it fail with an error that is
    not an ordinary one. -/
theorem buildDecl_fails [Allows P] {I : Visits → Prop} {decl : SchemaDecl} {referenceOnly : Bool} {v : Visits}
    (htables : ∀ t ∈ decl.tables, ∀ d, Schemata.FailsWithin P (Table.ofDecl r d referenceOnly t))
    (hfails : ∀ i ∈ decl.includes, ∀ u, I u → (buildInclude l build location i).FailsWithin P u)
    (hkeeps : ∀ i ∈ decl.includes, ∀ u x w, I u → (buildInclude l build location i).Gives u x w → I w) (hv : I v) :
    (buildDecl r l build decl location referenceOnly).FailsWithin P v := by
  refine (failsWithin_ofExcept (Database.head_fails decl)).bind fun head _ hhead => ?_
  obtain ⟨-, rfl⟩ := gives_ofExcept.mp hhead
  refine (FailsWithin.gather hfails hkeeps hv).bind fun included _ _ => ?_
  refine (failsWithin_ofExcept (Database.addSettings_fails r decl head)).bind fun d _ _ => ?_
  refine (FailsWithin.starting (Database.addDeclaredTables_fails htables d)).bind fun _ _ _ => ?_
  exact mergeIncludes_fails _ _ _ _ _

end Fails

/-! ### The bound on the depth -/

/-- Not the error at the bound on the depth. -/
def Error.IsReal : Error → Prop
  | .load _ .tooDeep => False
  | _ => True

open Error (IsReal)

theorem Error.IsInner.isReal {e : Error} (h : IsInner e) : IsReal e := by
  cases e with
  | load p cause => exact absurd h id
  | _ => trivial

instance : Allows IsReal where
  ordinary _ he := (Error.IsOrdinary.isInner he).isReal

namespace Visits

/-- The stack has different files, each `known`, and more levels are left than known files are not on it. -/
structure HasRoom (known : List (List Component)) (depth : Nat) (v : Visits) : Prop where
  distinct : (v.building.map Path.components).Nodup
  found : v.building.map Path.components ⊆ known
  room : known.length < depth + v.building.length

namespace HasRoom

variable {known : List (List Component)} {depth : Nat} {v w : Visits}

theorem depth_pos (h : HasRoom known depth v) : 0 < depth := by
  have hle : v.building.length ≤ known.length := by
    rw [← List.length_map (f := Path.components)]
    exact (h.distinct.subperm h.found).length_le
  have hroom := h.room
  omega

theorem of_building (h : HasRoom known depth v) (hw : w.building = v.building) : HasRoom known depth w :=
  ⟨hw ▸ h.distinct, hw ▸ h.found, hw ▸ h.room⟩

theorem visit (h : HasRoom known (depth + 1) v) {p : Path} (hp : v.isBuilding p = false)
    (hknown : p.components ∈ known) : HasRoom known depth (v.visit p) where
  distinct := List.nodup_cons.mpr ⟨isBuilding_eq_false.mp hp, h.distinct⟩
  found := List.cons_subset.mpr ⟨hknown, h.found⟩
  room := by
    have hroom := h.room
    show known.length < depth + (v.building.length + 1)
    omega

end HasRoom

end Visits

/-- With more levels than files that can still be put on the stack, the last level is not reached. -/
theorem buildNested_isReal {known : List (List Component)} (hfound : ∀ p j, l.load p = .ok j → p.components ∈ known)
    (hload : ∀ p e, l.load p = .error e → IsReal (.load p e)) (depth : Nat) (decl : SchemaDecl) (location : Option Path)
    (referenceOnly : Bool) {v : Visits} (hv : v.HasRoom known depth) :
    (buildNested r l depth decl location referenceOnly).FailsWithin IsReal v := by
  induction depth generalizing decl location referenceOnly v with
  | zero => exact absurd hv.depth_pos (Nat.lt_irrefl 0)
  | succ depth ih =>
    refine buildDecl_fails (I := fun u => Visits.HasRoom known (depth + 1) u) ?_ ?_ ?_ hv
    · exact fun t _ d => (Table.ofDecl_fails r d referenceOnly t).mono fun _ => Error.IsInner.isReal
    · intro i _ u hu
      refine buildInclude_fails (resolveInclude_fails (fun _ => trivial) _) (fun _ _ _ => trivial)
        (fun p => loadDecl_fails (hload p) fun _ => trivial) fun p inner hp hbuilding hinner => ?_
      -- A level is used up for a file that was found and was not on the stack.
      obtain ⟨j, hj⟩ := load_of_loadDecl hinner
      exact ih inner (some p) i.referenceOnly (hu.visit hbuilding (hfound p j hj))
    · exact fun i _ u x w hu hi => hu.of_building (building_buildInclude (fun _ _ _ _ _ _ => building_buildNested) hi)

end Schemata
