import Schemata.Proofs.Acyclic
import Schemata.Proofs.Tour

/-!
# What a run has covered

A file that was built and is no longer on the stack is finished: whatever is reached from it has been loaded
and is in order. So a run that succeeds leaves nothing out that is reached from the first file.
-/

namespace Schemata

open Change Relation

/-! ### Finished files -/

section Finished
variable {source : Option Path → Option SchemaDecl} {x : Option Path}

/-- The settings and domains of a declaration are in order. -/
def SchemaDecl.IsSound (r : Registry) (decl : SchemaDecl) : Prop :=
  ∃ head equipped, Database.head decl = .ok head ∧ head.addSettings r decl = .ok equipped

/-- From the file `x` on, everything is in order and has been loaded. -/
def Finished (r : Registry) (source : Option Path → Option SchemaDecl) (files : List Path) (x : Option Path) : Prop :=
  ∀ y, ReflTransGen (Includes source) x y →
    ∃ decl, source y = some decl ∧ decl.IsSound r ∧ Covers files y decl.includes

namespace Finished

variable {r : Registry} {files more : List Path} {y : Option Path}

theorem mono (h : Finished r source files x) (hmore : files ⊆ more) : Finished r source more x := by
  intro y hy
  obtain ⟨decl, hdecl, hsound, hcovers⟩ := h y hy
  exact ⟨decl, hdecl, hsound, hcovers.mono hmore⟩

theorem next (h : Finished r source files x) (hxy : Includes source x y) : Finished r source files y :=
  fun z hz => h z (.head hxy hz)

theorem intro {decl : SchemaDecl} (hx : source x = some decl) (hsound : decl.IsSound r)
    (hcovers : Covers files x decl.includes) (hnext : ∀ y, Includes source x y → Finished r source files y) :
    Finished r source files x := by
  intro y hy
  rcases hy.cases_head with rfl | ⟨z, hxz, hzy⟩
  · exact ⟨decl, hx, hsound, hcovers⟩
  · exact hnext z hxz y hzy

theorem congr (hsource : Respectful source) {p q : Path} (hpq : p.components = q.components)
    (h : Finished r source files (some p)) : Finished r source files (some q) := by
  obtain ⟨decl, hdecl, hsound, hcovers⟩ := h _ .refl
  refine intro ((hsource p q hpq).symm.trans hdecl) hsound ?_ fun y hy => h.next (hy.congr hsource hpq)
  intro i hi
  obtain ⟨p', hp', hmem⟩ := hcovers i hi
  obtain ⟨p'', q', hp'', hq', hcomps⟩ := resolveInclude_same hpq i.filename
  obtain rfl := Except.ok.inj (hp'.symm.trans hp'')
  exact ⟨q', hq', hcomps ▸ hmem⟩

end Finished

end Finished

/-! ### The stack and the finished files -/

/-- Of the loaded files those that are not on the stack are finished. -/
structure Done (r : Registry) (source : Option Path → Option SchemaDecl) (start : Option Path) (v : Visits) : Prop where
  hasStart : HasStart start v
  finished : ∀ p ∈ v.loaded, v.isBuilding p = true ∨ Finished r source v.loaded (some p)

section Search
variable {r : Registry} {l : Library} {source : Option Path → Option SchemaDecl} {start x : Option Path} {v w : Visits}
  {p : Path}

namespace Done

theorem visit (h : Done r source start v) (p : Path) : Done r source start (v.visit p) where
  hasStart := h.hasStart.visit p
  finished q hq := by
    rw [isBuilding_visit]
    rcases List.mem_cons.mp hq with rfl | hq
    · exact .inl (by rw [Path.same_refl, Bool.true_or])
    · rcases h.finished q hq with hbuilding | hfinished
      · exact .inl (by rw [hbuilding, Bool.or_true])
      · exact .inr (hfinished.mono (List.subset_cons_self _ _))

/-- A file that is finished may leave the stack. -/
theorem leave (hsource : Respectful source) (h : Done r source start v) (hw : Done r source start w)
    (hbuilding : w.building = (v.visit p).building) (hp : Finished r source w.loaded (some p)) :
    Done r source start w.leave := by
  have hleave : w.leave.building = v.building := by rw [Visits.leave, hbuilding]; rfl
  refine ⟨h.hasStart.of_building hleave, fun q hq => ?_⟩
  rcases hw.finished q hq with hstack | hfinished
  · rw [isBuilding_congr hbuilding, isBuilding_visit] at hstack
    rcases Bool.or_eq_true_iff.mp hstack with hpq | hstack
    · exact .inr (hp.congr hsource (Path.same_iff.mp hpq))
    · exact .inl ((isBuilding_congr hleave q).trans hstack)
  · exact .inr hfinished

/-- A file that was loaded and is not on the stack is finished. -/
theorem of_loaded (hsource : Respectful source) (h : Done r source start v) (hloaded : v.isLoaded p = true)
    (hfree : v.isBuilding p = false) : Finished r source v.loaded (some p) := by
  obtain ⟨q, hq, hqp⟩ := Visits.isLoaded_iff.mp hloaded
  rcases h.finished q hq with hbuilding | hfinished
  · rw [Visits.isBuilding_eq_false, ← hqp, ← Visits.isBuilding_eq_false, hbuilding] at hfree
    cases hfree
  · exact hfinished.congr hsource hqp

end Done

/-- A file that is built is finished. -/
def Finishes (r : Registry) (source : Option Path → Option SchemaDecl) (start : Option Path)
    (build : SchemaDecl → Path → Bool → Edit Visits Schema) : Prop :=
  ∀ decl p b v s w, source (some p) = some decl → Done r source start v → (build decl p b).Gives v s w →
    Done r source start w ∧ v.loaded ⊆ w.loaded ∧ Finished r source w.loaded (some p)

section Finish
variable {build : SchemaDecl → Path → Bool → Edit Visits Schema} (hsource : Respectful source)
  (hstored : Stored l source start)
  (hkept : ∀ decl p b v s w, (build decl p b).Gives v s w → w.building = v.building)
  (hfinish : Finishes r source start build)
include hsource hstored hkept hfinish

theorem finish_buildInclude {i : IncludeDecl} {o : Option (Included Schema)} (hv : Done r source start v)
    (h : (buildInclude l build x i).Gives v o w) :
    Done r source start w ∧ v.loaded ⊆ w.loaded ∧ ∃ p, resolveInclude x i.filename = .ok p ∧
      w.isLoaded p = true ∧ Finished r source w.loaded (some p) := by
  obtain ⟨p, hp, hfree, ⟨hloaded, -, rfl⟩ | ⟨-, decl, s, u, hdecl, hs, -, rfl⟩⟩ := gives_buildInclude h
  · exact ⟨hv, List.Subset.refl _, p, hp, hloaded, hv.of_loaded hsource hloaded hfree⟩
  · have hfile := hstored.source_eq hv.hasStart hfree hdecl
    obtain ⟨hu, hmore, hfinished⟩ := hfinish decl p i.referenceOnly _ s u hfile (hv.visit p) hs
    have hp' : p ∈ u.leave.loaded := hmore List.mem_cons_self
    exact ⟨hv.leave hsource hu (hkept _ _ _ _ _ _ hs) hfinished, fun q hq => hmore (List.mem_cons_of_mem _ hq), p, hp,
      Visits.isLoaded_iff.mpr ⟨p, hp', rfl⟩, hfinished⟩

theorem finish_gather {is : List IncludeDecl} {included : List (Included Schema)} (hv : Done r source start v)
    (h : (gather (buildInclude l build x) is).Gives v included w) :
    Done r source start w ∧ v.loaded ⊆ w.loaded ∧ ∀ i ∈ is, ∃ p, resolveInclude x i.filename = .ok p ∧
      w.isLoaded p = true ∧ Finished r source w.loaded (some p) := by
  induction is generalizing v included with
  | nil =>
    obtain ⟨-, rfl⟩ := gives_pure.mp h
    exact ⟨hv, List.Subset.refl _, fun i hi => absurd hi List.not_mem_nil⟩
  | cons i is ih =>
    obtain ⟨o, u, os, hi, his, -⟩ := gives_gather_cons.mp h
    obtain ⟨hu, hmore, p, hp, hloaded, hfinished⟩ := finish_buildInclude hsource hstored hkept hfinish hv hi
    obtain ⟨hw, hmore', hall⟩ := ih hu his
    refine ⟨hw, List.Subset.trans hmore hmore', fun j hj => ?_⟩
    rcases List.mem_cons.mp hj with rfl | hj
    · obtain ⟨q, hq, hqp⟩ := Visits.isLoaded_iff.mp hloaded
      exact ⟨p, hp, Visits.isLoaded_iff.mpr ⟨q, hmore' hq, hqp⟩, hfinished.mono hmore'⟩
    · exact hall j hj

theorem finish_buildDecl {decl : SchemaDecl} {b : Bool} {s : Schema} (hx : source x = some decl)
    (hv : Done r source start v) (h : (buildDecl r l build decl x b).Gives v s w) :
    Done r source start w ∧ v.loaded ⊆ w.loaded ∧ Finished r source w.loaded x := by
  obtain ⟨included, head, equipped, d, hincluded, hhead, hequipped, -⟩ := gives_buildDecl h
  obtain ⟨hw, hmore, hall⟩ := finish_gather hsource hstored hkept hfinish hv hincluded
  refine ⟨hw, hmore, .intro hx ⟨head, equipped, hhead, hequipped⟩ ?_ ?_⟩
  · intro i hi
    obtain ⟨p, hp, hloaded, -⟩ := hall i hi
    obtain ⟨q, hq, hqp⟩ := Visits.isLoaded_iff.mp hloaded
    exact ⟨p, hp, List.mem_map.mpr ⟨q, hq, hqp⟩⟩
  · rintro y ⟨decl', i, p, hdecl, hi, hp, hy⟩
    obtain rfl := Option.some.inj (hx.symm.trans hdecl)
    obtain ⟨q, rfl, hqp⟩ := Option.map_eq_some_iff.mp hy
    obtain ⟨p', hp', -, hfinished⟩ := hall i hi
    obtain rfl := Except.ok.inj (hp.symm.trans hp')
    exact hfinished.congr hsource hqp.symm

end Finish

theorem finishes_below (hsource : Respectful source) (hstored : Stored l source start) (depth : Nat) :
    Finishes r source start (below r l depth) := by
  induction depth with
  | zero => exact fun _ _ _ _ _ _ _ _ hfail => absurd hfail not_gives_fail
  | succ depth ih =>
    intro decl p b v s w hp hv h
    rw [below, buildNested_eq] at h
    exact finish_buildDecl hsource hstored (fun _ _ _ _ _ _ => building_below) ih hp hv h

end Search

/-! ### What is reached -/

section Reached
variable {r : Registry} {l : Library} {source : Option Path → Option SchemaDecl} {start x y : Option Path} {j : Json}

/-- Files among which every include leads are all that is reached from them. -/
theorem reached_of_covers (hsource : Respectful source) {files : List Path}
    (hcovers : ∀ x, x = start ∨ x ∈ files.map some → ∀ decl, source x = some decl → Covers files x decl.includes)
    (hy : ReflTransGen (Includes source) start y) :
    y = start ∨ ∃ q ∈ files, y.map Path.components = some q.components := by
  have hnext : ∀ x y, x = start ∨ x ∈ files.map some → Includes source x y →
      ∃ q ∈ files, y.map Path.components = some q.components := by
    rintro x y hx ⟨decl, i, p, hdecl, hi, hp, hy⟩
    obtain ⟨p', hp', hmem⟩ := hcovers x hx decl hdecl i hi
    obtain rfl := Except.ok.inj (hp.symm.trans hp')
    obtain ⟨q, hq, hqp⟩ := List.mem_map.mp hmem
    exact ⟨q, hq, hy.trans (congrArg some hqp.symm)⟩
  induction hy with
  | refl => exact .inl rfl
  | tail _ hxy ih =>
    right
    rcases ih with rfl | ⟨q, hq, hxq⟩
    · exact hnext _ _ (.inl rfl) hxy
    · obtain ⟨p, rfl, hpq⟩ := Option.map_eq_some_iff.mp hxq
      exact hnext (some q) _ (.inr (List.mem_map_of_mem hq)) (hxy.congr hsource hpq.symm)

namespace FirstVisits

variable {decl : SchemaDecl} {vs : List Visited}

theorem source_eq (h : FirstVisits l start decl vs) {u : Visited} (hu : u ∈ vs) :
    declFrom l start j (some u.path) = some u.decl := by
  have hne : start.map Path.components ≠ some u.path.components := by
    intro heq
    obtain ⟨p, rfl, hp⟩ := Option.map_eq_some_iff.mp heq
    have honce := h.once
    rw [Option.toList_some, List.singleton_append, List.map_cons, List.nodup_cons] at honce
    exact honce.1 (hp ▸ List.mem_map_of_mem (List.mem_map_of_mem hu))
  rw [declFrom_stored _ hne, (h.reached u hu).loaded]
  rfl

/-- Each file that is reached is the first one or visited. -/
theorem visited (h : FirstVisits l start decl vs) (hsource : Respectful (declFrom l start j))
    (hj : SchemaDecl.record.shape j = .ok decl) {p : Path}
    (hp : ReflTransGen (Includes (declFrom l start j)) start (some p)) :
    start.map Path.components = some p.components ∨ ∃ u ∈ vs, u.path.components = p.components := by
  have hahead : ∀ found, declFrom l start j start = some found →
      Covers (start.toList ++ vs.map (·.path)) start found.includes := by
    intro found hfound
    obtain rfl := Option.some.inj ((declFrom_start hj).symm.trans hfound)
    exact h.ahead
  have hcovers : ∀ x, x = start ∨ x ∈ (start.toList ++ vs.map (·.path)).map some → ∀ found,
      declFrom l start j x = some found → Covers (start.toList ++ vs.map (·.path)) x found.includes := by
    rintro x (rfl | hx) found hfound
    · exact hahead found hfound
    · obtain ⟨q, hq, rfl⟩ := List.mem_map.mp hx
      rcases List.mem_append.mp hq with hq | hq
      · obtain rfl := Option.mem_toList.mp hq
        exact hahead found hfound
      · obtain ⟨u, hu, rfl⟩ := List.mem_map.mp hq
        obtain rfl := Option.some.inj ((h.source_eq hu).symm.trans hfound)
        exact h.below u hu
  rcases reached_of_covers hsource hcovers hp with hstart | ⟨q, hq, hpq⟩
  · exact .inl (by rw [← hstart]; rfl)
  · have hpq' : q.components = p.components := (Option.some.inj hpq).symm
    rcases List.mem_append.mp hq with hq | hq
    · obtain rfl := Option.mem_toList.mp hq
      exact .inl (congrArg some hpq')
    · obtain ⟨u, hu, rfl⟩ := List.mem_map.mp hq
      exact .inr ⟨u, hu, hpq'⟩

end FirstVisits

end Reached

namespace Schema

variable {r : Registry} {l : Library} {start : Option Path} {j : Json} {s : Schema}

theorem done_startVisits {source : Option Path → Option SchemaDecl} : Done r source start (startVisits start) where
  hasStart := hasStart_startVisits
  finished p hp := by
    cases start with
    | none => cases hp
    | some q =>
      obtain rfl := List.mem_singleton.mp hp
      exact .inl (by simp [startVisits, Visits.isBuilding, Path.same_refl])

/-- After a run everything that is reached is in order. -/
theorem finished_of_build (hl : Respectful (declAt l)) (h : (build r l start j ()).result = .ok s) :
    ∃ loaded, Finished r (declFrom l start j) loaded start := by
  obtain ⟨decl, w, hdecl, hgives⟩ := gives_build h
  rw [buildNested_eq] at hgives
  obtain ⟨-, -, hfinished⟩ := finish_buildDecl hl.declFrom declFrom_stored (fun _ _ _ _ _ _ => building_below)
    (finishes_below hl.declFrom declFrom_stored _) (declFrom_start hdecl) done_startVisits hgives
  exact ⟨_, hfinished⟩

end Schema

end Schemata
