import Schemata.InMemory
import Schemata.Json.Printer
import Schemata.Proofs.Acyclic
import Schemata.Proofs.Carried

/-!
# Where a tree is found

A tree that is found in a file starts with that file on the stack and among the loaded ones. Unless an
include leads there, this decides nothing: the tree is built as one that is in no file, and its schema
only remembers the file. Nothing that comes later looks at what it remembers.
-/

namespace Schemata

open Change Relation

namespace Visits

variable {v : Visits} {p q : Path}

/-- The visits when everything began with the file `p`. -/
def begunAt (p : Path) (v : Visits) : Visits :=
  ⟨v.building ++ [p], v.loaded ++ [p]⟩

theorem same_eq_false (h : p.components ≠ q.components) : p.same q = false := by
  rw [← Bool.not_eq_true, Path.same_iff]
  exact h

theorem isBuilding_begunAt (h : p.components ≠ q.components) : (v.begunAt p).isBuilding q = v.isBuilding q := by
  simp [isBuilding, begunAt, same_eq_false h]

theorem isLoaded_begunAt (h : p.components ≠ q.components) : (v.begunAt p).isLoaded q = v.isLoaded q := by
  simp [isLoaded, begunAt, same_eq_false h]

/-- What leaves the stack is above the first file. -/
theorem leave_begunAt (h : v.building ≠ []) : (v.begunAt p).leave = v.leave.begunAt p := by
  obtain ⟨_ | ⟨q, building⟩, loaded⟩ := v
  · exact absurd rfl h
  · rfl

end Visits

/-- The schema when it is found in the file `p`. -/
def Schema.foundAt (p : Path) (s : Schema) : Schema :=
  { s with location := some p }

/-! ### Building in the same way -/

section Building
variable {r : Registry} {l : Library} {build : SchemaDecl → Path → Bool → Edit Visits Schema} {x y : Option Path}
  {p : Path} {g : Schema → Schema}

/-- An include that leads from both locations to the same file, and not to `p`. -/
theorem carried_buildInclude
    (hkept : ∀ decl q b v s w, (build decl q b).Gives v s w → w.building = v.building) {i : IncludeDecl}
    (hsame : resolveInclude y i.filename = resolveInclude x i.filename)
    (hfree : ∀ q, resolveInclude x i.filename = .ok q → p.components ≠ q.components)
    (hbuild : ∀ q decl b v, resolveInclude x i.filename = .ok q → loadDecl l q = .ok decl →
      (build decl q b).Carried (Visits.begunAt p) id (build decl q b) v) (v : Visits) :
    (buildInclude l build x i).Carried (Visits.begunAt p) id (buildInclude l build y i) v := by
  unfold buildInclude
  rw [hsame]
  refine (carried_ofExcept _).bind fun q v hgives => .of_get ?_
  obtain ⟨hq, rfl⟩ := gives_ofExcept.mp hgives
  have hne := hfree q hq
  rw [id, Visits.isBuilding_begunAt hne, Visits.isLoaded_begunAt hne]
  split
  · exact carried_fail _
  · split
    · exact (carried_report _).bind fun _ _ _ => carried_pure _
    · refine Carried.bind (g := id) (carried_modify rfl) fun _ v _ => ?_
      refine (carried_report _).bind fun _ v _ => ?_
      refine (carried_ofExcept _).bind fun decl v hgives => ?_
      obtain ⟨hdecl, rfl⟩ := gives_ofExcept.mp hgives
      refine Carried.bind (g := id) (carried_modify rfl) fun _ w hw => ?_
      obtain rfl := gives_modify.mp hw
      refine (hbuild q decl _ _ hq hdecl).bind fun s u hu => ?_
      -- What is on top of the stack is the file that was just built, so the first file stays.
      have hstack : u.building ≠ [] := by
        rw [hkept _ _ _ _ _ _ hu]
        exact List.cons_ne_nil _ _
      exact (carried_modify (Visits.leave_begunAt hstack)).bind fun _ _ _ => carried_pure _

theorem carried_addInclude (i : Included Schema) (s : Schema) :
    (Schema.addInclude i).Carried (Schema.foundAt p) id (Schema.addInclude i) s := by
  refine Carried.bind (g := id) (carried_within rfl fun _ => rfl) fun _ s _ => ?_
  exact (carried_report _).bind fun _ s _ => carried_modify rfl

/-- Merging does not look at the location of what it merges into. -/
theorem carried_mergeIncludes (b : Bool) (d : Database) (included : List (Included Schema)) (v : Visits) :
    (mergeIncludes x b d included).Carried (Visits.begunAt p) (Schema.foundAt p)
      (mergeIncludes (some p) b d included) v := by
  have hmerge := Carried.forEach (l := included) (fun i _ => carried_addInclude (p := p) i)
    { location := x, referenceOnly := b, databases := [d] }
  refine Carried.bind hmerge.starting fun a v _ => ?_
  exact (carried_ofExcept a.2.checkQualifiedNames).bind fun _ _ _ => carried_pure a.2

theorem carried_mergeIncludes_same (b : Bool) (d : Database) (included : List (Included Schema)) (v : Visits) :
    (mergeIncludes x b d included).Carried (Visits.begunAt p) id (mergeIncludes x b d included) v := by
  have hmerge := carried_self (Change.forEach Schema.addInclude included)
    { location := x, referenceOnly := b, databases := [d] }
  refine Carried.bind hmerge.starting fun a v _ => ?_
  exact (carried_ofExcept a.2.checkQualifiedNames).bind fun _ _ _ => carried_pure a.2

theorem carried_buildDecl {decl : SchemaDecl}
    (hincludes : ∀ i ∈ decl.includes, ∀ v,
      (buildInclude l build x i).Carried (Visits.begunAt p) id (buildInclude l build y i) v)
    (hmerge : ∀ b d included v,
      (mergeIncludes x b d included).Carried (Visits.begunAt p) g (mergeIncludes y b d included) v)
    (b : Bool) (v : Visits) :
    (buildDecl r l build decl x b).Carried (Visits.begunAt p) g (buildDecl r l build decl y b) v := by
  refine (carried_ofExcept _).bind fun head v _ => ?_
  refine (Carried.gather hincludes v).bind fun included v _ => ?_
  refine (carried_ofExcept _).bind fun head v _ => ?_
  have htables := carried_self (Database.addDeclaredTables r b decl.tables) head
  exact Carried.bind htables.starting fun a v _ => hmerge b a.2 included v

end Building

/-! ### Below the tree -/

section Below
variable {r : Registry} {l : Library} {source : Option Path → Option SchemaDecl} {p : Path}
  (hstored : Stored l source none) (hfree : ¬TransGen (Includes source) none (some p))
include hfree

/-- An include of a file that is reached leads to another file than `p`. -/
theorem components_ne_of_unreached {x : Option Path} {decl : SchemaDecl} (hx : source x = some decl)
    (hreached : ReflTransGen (Includes source) none x) {i : IncludeDecl} (hi : i ∈ decl.includes) {q : Path}
    (hq : resolveInclude x i.filename = .ok q) : p.components ≠ q.components := by
  intro hpq
  have hp : Includes source x (some p) := ⟨decl, i, q, hx, hi, hq, congrArg some hpq⟩
  exact hfree (TransGen.tail' hreached hp)

include hstored

theorem carried_below (depth : Nat) {q : Path} {decl : SchemaDecl} (hq : source (some q) = some decl)
    (hreached : ReflTransGen (Includes source) none (some q)) (b : Bool) (v : Visits) :
    (below r l depth decl q b).Carried (Visits.begunAt p) id (below r l depth decl q b) v := by
  induction depth generalizing q decl b v with
  | zero => exact carried_fail _
  | succ depth ih =>
    show (buildNested r l depth decl (some q) b).Carried _ _ (buildNested r l depth decl (some q) b) v
    rw [buildNested_eq]
    refine carried_buildDecl (fun i hi => ?_) carried_mergeIncludes_same b v
    refine carried_buildInclude (fun _ _ _ _ _ _ => building_below) rfl ?_ ?_
    · exact fun q' hq' => components_ne_of_unreached hfree hq hreached hi hq'
    · intro q' inner b v hq' hinner
      have hsource : source (some q') = some inner := by rw [hstored q' (by simp), hinner]; rfl
      exact ih hsource (hreached.tail ⟨decl, i, q', hq, hi, hq', rfl⟩) b v

end Below

/-! ### What is reached -/

/-- The components of the files that a file includes. -/
def targets (source : Option Path → Option SchemaDecl) (x : Option Path) : List (List Component) :=
  match source x with
  | none => []
  | some decl => decl.includes.filterMap fun i => (resolveInclude x i.filename).toOption.map Path.components

theorem Includes.mem_targets {source : Option Path → Option SchemaDecl} {x y : Option Path}
    (h : Includes source x y) : ∃ q, y = some q ∧ q.components ∈ targets source x := by
  obtain ⟨decl, i, p, hdecl, hi, hp, hy⟩ := h
  obtain ⟨q, rfl, hq⟩ := Option.map_eq_some_iff.mp hy
  refine ⟨q, rfl, ?_⟩
  simp only [targets, hdecl]
  exact List.mem_filterMap.mpr ⟨i, hi, by rw [hp, hq]; rfl⟩

/-- A file is not reached if it is not among those that the first one leads to and that lead only to one another. -/
theorem unreached_of_closed {source : Option Path → Option SchemaDecl} {start : Option Path}
    (known : List (List Component)) (hstart : targets source start ⊆ known)
    (hclosed : ∀ q, q.components ∈ known → targets source (some q) ⊆ known) {p : Path}
    (hp : p.components ∉ known) : ¬TransGen (Includes source) start (some p) := by
  have hall : ∀ y, TransGen (Includes source) start y → ∃ q, y = some q ∧ q.components ∈ known := by
    intro y hy
    induction hy with
    | single h =>
      obtain ⟨q, rfl, hq⟩ := h.mem_targets
      exact ⟨q, rfl, hstart hq⟩
    | tail _ h ih =>
      obtain ⟨q, rfl, hq⟩ := ih
      obtain ⟨q', rfl, hq'⟩ := h.mem_targets
      exact ⟨q', rfl, hclosed q hq hq'⟩
  intro h
  obtain ⟨q, hq, hmem⟩ := hall _ h
  cases hq
  exact hp hmem

namespace Schema

variable {r : Registry} {l : Library} {j : Json} {p : Path}

/-- Nothing leads from the tree to the file `p`, and where the tree is found is not asked for by its own includes. -/
structure Aside (l : Library) (j : Json) (p : Path) : Prop where
  absolute : ∀ decl, SchemaDecl.record.shape j = .ok decl →
    ∀ i ∈ decl.includes, (⟨i.filename⟩ : Path).isAbsolute = true
  unreached : ¬TransGen (Includes (declFrom l none j)) none (some p)

theorem resolveInclude_of_isAbsolute {filename : String} (h : (⟨filename⟩ : Path).isAbsolute = true)
    (x y : Option Path) : resolveInclude x filename = resolveInclude y filename := by
  simp only [resolveInclude, if_pos h]

theorem Aside.carried_root (h : Aside l j p) {decl : SchemaDecl} (hdecl : SchemaDecl.record.shape j = .ok decl)
    (depth : Nat) (b : Bool) (v : Visits) :
    (buildNested r l depth decl none b).Carried (Visits.begunAt p) (foundAt p)
      (buildNested r l depth decl (some p) b) v := by
  have hroot : declFrom l none j none = some decl := declFrom_start hdecl
  rw [buildNested_eq]
  refine carried_buildDecl (fun i hi => ?_) carried_mergeIncludes b v
  refine carried_buildInclude (fun _ _ _ _ _ _ => building_below) ?_ ?_ ?_
  · exact resolveInclude_of_isAbsolute (h.absolute decl hdecl i hi) _ _
  · exact fun q hq => components_ne_of_unreached h.unreached hroot .refl hi hq
  · intro q inner b v hq hinner
    have hsource : declFrom l none j (some q) = some inner := by rw [declFrom_stored q (by simp), hinner]; rfl
    exact carried_below declFrom_stored h.unreached depth hsource (.single ⟨decl, i, q, hroot, hi, hq, rfl⟩) b v

/-- A tree is built where it is found as it is built without a location. -/
theorem Aside.build_relocated (h : Aside l j p) (r : Registry) :
    build r l (some p) j () = (build r l none j ()).map id (foundAt p) := by
  cases hdecl : SchemaDecl.record.shape j with
  | error e =>
    rw [build_misshapen hdecl, build_misshapen hdecl]
    rfl
  | ok decl =>
    rw [build_of_shape hdecl, build_of_shape hdecl]
    have hnested := h.carried_root (r := r) hdecl (l.depth + 1) false (startVisits none)
    exact (hnested.starting (f := id) (s := ())).bind fun a _ _ => carried_pure a.1

/-! ### After building -/

theorem carried_finalizeWith (r : Registry) (c : Config) (s : Schema) :
    (finalizeWith r c).Carried (foundAt p) id (finalizeWith r c) s := by
  have hfinalize : ∀ s, (finalize settleLimit r c.platform).Carried (foundAt p) id
      (finalize settleLimit r c.platform) s := fun s => carried_within rfl fun _ => rfl
  unfold finalizeWith finalizeWithin
  split
  · exact Carried.bind (g := id) (carried_modify rfl) fun _ s _ => hfinalize s
  · exact hfinalize s

theorem Aside.dumpOf_eq (h : Aside l j p) (r : Registry) (c : Config) :
    dumpOf r l (some p) c j = dumpOf r l none c j := by
  unfold dumpOf
  rw [h.build_relocated r]
  dsimp only [Outcome.map]
  cases (build r l none j ()).result with
  | error e => rfl
  | ok s =>
    have hfinalized : finalizeWith r c (s.foundAt p) = (finalizeWith r c s).map (foundAt p) id :=
      carried_finalizeWith r c s
    dsimp only [Except.map, bind, Except.bind]
    rw [hfinalized]
    dsimp only [Outcome.map]
    rw [Except.map_id]
    rfl

end Schema

/-! ### The command line -/

namespace Cli

variable {src : Source} {o : Options} {c : Config} {j : Json}

/-- The command line shows what is made of a tree that is found in its input file, or the error that came up. -/
theorem render_of_dumpOf (hconfig : readConfig src o.config = .ok c) (hload : src.library.load ⟨o.input⟩ = .ok j) :
    (∀ dump, dumpOf .builtin src.library (some ⟨o.input⟩) c j = .ok dump → render src o = .ok dump) ∧
      ∀ e, dumpOf .builtin src.library (some ⟨o.input⟩) c j = .error e →
        render src o = .error (.notBuilt e) ∨ render src o = .error (.notFinalized e) := by
  unfold render dumpOf
  rw [hconfig, Schema.load_of_ok hload]
  cases (Schema.build .builtin src.library (some ⟨o.input⟩) j ()).result with
  | error e =>
    refine ⟨fun dump h => ?_, fun e' h => .inl ?_⟩
    · cases h
    · cases h
      rfl
  | ok s =>
    simp only [bind, Except.bind, Except.mapError]
    cases (Schema.finalizeWith .builtin c s).result with
    | error e =>
      refine ⟨fun dump h => ?_, fun e' h => .inr ?_⟩
      · cases h
      · cases h
        rfl
    | ok u =>
      refine ⟨fun dump h => ?_, fun e' h => ?_⟩
      · cases h
        rfl
      · cases h

end Cli

theorem buildAndDump_eq {l : Library} {text : String} {config : Option String} {j : Json} {c : Config}
    (htext : Json.read text = .ok j) (hconfig : configOf config = .ok c) :
    buildAndDump l text config = dumpOf .builtin l none c j := by
  unfold buildAndDump
  rw [htext, hconfig]
  rfl

namespace Schema

variable {l : Library} {j : Json} {p : Path}

/-- The location of a tree only matters to includes. If no include leads to it, the tree is built with and without
    it to the same schema, but for the location, or to the same error. Finalizing leaves it at that, and the texts
    are equal; so the command line shows for a file what is made of a text with the same tree. -/
theorem location_matters_only_to_includes (h : Aside l j p) :
    (∀ r, (build r l (some p) j ()).result = (build r l none j ()).result.map (foundAt p) ∧
        (build r l (some p) j ()).log = (build r l none j ()).log) ∧
      (∀ r c s, finalizeWith r c (s.foundAt p) = (finalizeWith r c s).map (foundAt p) id) ∧
      (∀ r c, dumpOf r l (some p) c j = dumpOf r l none c j) ∧
      ∀ src o c text config, Cli.Source.library src = l → ⟨o.input⟩ = p → l.load p = .ok j →
        Json.read text = .ok j → Cli.readConfig src o.config = .ok c → configOf config = .ok c →
        (∀ dump, buildAndDump l text config = .ok dump ↔ Cli.render src o = .ok dump) ∧
          ∀ e, buildAndDump l text config = .error e →
            Cli.render src o = .error (.notBuilt e) ∨ Cli.render src o = .error (.notFinalized e) := by
  refine ⟨fun r => ?_, fun r c s => carried_finalizeWith r c s, h.dumpOf_eq, ?_⟩
  · rw [h.build_relocated r]
    exact ⟨rfl, rfl⟩
  · rintro src o c text config rfl rfl hload htext hread hconfig
    rw [buildAndDump_eq htext hconfig, ← h.dumpOf_eq]
    obtain ⟨hshown, hfailed⟩ := Cli.render_of_dumpOf hread hload
    refine ⟨fun dump => ⟨hshown dump, fun hdump => ?_⟩, hfailed⟩
    cases hof : dumpOf .builtin src.library (some ⟨o.input⟩) c j with
    | ok dump' =>
      have hsame := (hshown dump' hof).symm.trans hdump
      rw [Except.ok.inj hsame]
    | error e => rcases hfailed e hof with hfail | hfail <;> cases hfail.symm.trans hdump

def shopTree : Json :=
  treeIncluding "shop" ["/lib/base.json"]

/-- A tree that includes a file by its absolute name, which includes the file beside it. -/
def shopSource : Cli.Source where
  read path :=
    if path = "/shop/main.json" then .ok shopTree.render
    else if path = "/lib/base.json" then .ok (treeIncluding "base" ["types.json"]).render
    else if path = "/lib/types.json" then .ok (treeIncluding "types" []).render
    else .error .notFound
  depth := 3

theorem aside_shopTree : Aside shopSource.library shopTree ⟨"/shop/main.json"⟩ where
  absolute decl hdecl i hi := by
    have hnames : (SchemaDecl.record.shape shopTree).toOption.map (fun d => d.includes.map (·.filename)) =
        some ["/lib/base.json"] := by rfl
    rw [hdecl] at hnames
    have hname : i.filename ∈ ["/lib/base.json"] :=
      (Option.some.inj hnames) ▸ List.mem_map_of_mem hi
    rw [List.mem_singleton.mp hname]
    decide
  unreached := by
    refine unreached_of_closed [Path.components ⟨"/lib/base.json"⟩, Path.components ⟨"/lib/types.json"⟩] ?_ ?_
      (by decide)
    · decide +kernel
    · rintro ⟨text⟩ hq
      by_cases hbase : text = "/lib/base.json"
      · subst hbase
        decide +kernel
      · by_cases htypes : text = "/lib/types.json"
        · subst htypes
          decide +kernel
        · by_cases hmain : text = "/shop/main.json"
          · subst hmain
            exact absurd hq (by decide)
          · have hload : shopSource.library.load ⟨text⟩ = .error (.unreadable .notFound) := by
              simp [Cli.Source.library, shopSource, hbase, htypes, hmain]
            have hnone : declFrom shopSource.library none shopTree (some ⟨text⟩) = none := by
              exact toOption_loadDecl_of_error hload
            simp only [targets, hnone]
            exact List.nil_subset _

theorem location_matters_only_to_includes_shop :
    (∃ dump, buildAndDump shopSource.library shopTree.render none = .ok dump ∧
      Cli.render shopSource { input := "/shop/main.json" } = .ok dump) ∧
    ∀ s, (build {} shopSource.library none shopTree ()).result = .ok s →
      (build {} shopSource.library (some ⟨"/shop/main.json"⟩) shopTree ()).result =
        .ok { s with location := some ⟨"/shop/main.json"⟩ } := by
  obtain ⟨hbuild, -, -, hshown⟩ := location_matters_only_to_includes aside_shopTree
  have hread : Json.read shopTree.render = .ok shopTree := by rfl
  have hload : shopSource.library.load ⟨"/shop/main.json"⟩ = .ok shopTree := by rfl
  refine ⟨?_, fun s hs => ?_⟩
  · have hok : (buildAndDump shopSource.library shopTree.render none).toOption.isSome = true := by decide +kernel
    cases hdump : buildAndDump shopSource.library shopTree.render none with
    | error e =>
      rw [hdump] at hok
      cases hok
    | ok dump =>
      have hsame := hshown shopSource { input := "/shop/main.json" } {} _ none rfl rfl hload hread rfl rfl
      exact ⟨dump, rfl, (hsame.1 dump).mp hdump⟩
  · rw [(hbuild {}).1, hs]
    rfl

end Schema

end Schemata
