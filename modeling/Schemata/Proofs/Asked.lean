import Schemata.Proofs.Trail
import Schemata.Proofs.Visits

/-!
# What a library is asked for

The log names each file that an include makes a library look for. No file is named twice, and what a
library says about other files makes no difference.
-/

namespace Schemata

open Change

/-- The files that a log says are looked for. -/
def asked (log : List Event) : List Path :=
  log.filterMap fun
    | .loadingInclude p => some p
    | _ => none

theorem asked_append (es fs : List Event) : asked (es ++ fs) = asked es ++ asked fs := by
  rw [asked, List.filterMap_append, asked, asked]

/-! ### What asks for no file -/

theorem trail_asked {σ : Type} : Trail fun (_ : σ) es (_ : σ) => asked es = [] where
  refl _ := rfl
  trans h h' := by rw [asked_append, h, h', List.append_nil]

theorem asked_addDeclaredTables (r : Registry) (referenceOnly : Bool) (ts : List TableDecl) (d : Database) :
    (Database.addDeclaredTables r referenceOnly ts).Follows (fun _ es _ => asked es = []) d := by
  refine (Follows.forEach trail_asked fun t _ d => ?_).bind trail_asked fun _ d _ => .of_get (follows_report rfl)
  refine .of_get ((follows_ofExcept trail_asked _).bind trail_asked fun table d _ => ?_)
  exact (follows_report rfl).bind trail_asked fun _ _ _ => follows_attempt trail_asked fun _ _ => rfl

theorem asked_addTablesAt (pos : Nat) (ts : List Table) (ds : List Database) :
    (Schema.addTablesAt pos ts).Follows (fun _ es _ => asked es = []) ds := by
  refine Follows.forEach trail_asked fun t _ ds => ?_
  have hadd : ∀ d : Database, (attempt (·.addTable t)).Follows (fun _ es _ => asked es = []) d :=
    fun d => follows_attempt trail_asked fun _ _ => rfl
  exact .atPosition trail_asked hadd fun _ _ _ _ h => h

theorem asked_mergeDatabase (source : Database) (referenceOnly : Bool) (ds : List Database) :
    (Schema.mergeDatabase source referenceOnly).Follows (fun _ es _ => asked es = []) ds := by
  refine .of_get ?_
  dsimp only
  split
  · exact asked_addTablesAt _ _ _
  · exact (follows_modify rfl).bind trail_asked fun _ ds _ => asked_addTablesAt _ _ ds

theorem asked_addInclude (i : Included Schema) (s : Schema) :
    (Schema.addInclude i).Follows (fun _ es _ => asked es = []) s := by
  have hmerge := Follows.forEach (s := s.databases) trail_asked fun d (_ : d ∈ i.schema.databases) ds =>
    asked_mergeDatabase d i.referenceOnly ds
  refine Follows.bind trail_asked (hmerge.within fun _ _ h => h) fun _ _ _ => ?_
  exact (follows_report rfl).bind trail_asked fun _ _ _ => follows_modify rfl

/-! ### No file twice -/

/-- Exactly the files that `es` names are loaded from `v` to `w`, and different ones. -/
structure Loads (v : Visits) (es : List Event) (w : Visits) : Prop where
  loaded : w.loaded = (asked es).reverse ++ v.loaded
  distinct : (v.loaded.map Path.components).Nodup → (w.loaded.map Path.components).Nodup

theorem trail_loads : Trail Loads where
  refl v := ⟨rfl, id⟩
  trans h h' :=
    ⟨by rw [h'.loaded, h.loaded, asked_append, List.reverse_append, List.append_assoc], h'.distinct ∘ h.distinct⟩

/-- What names no file and loads none. -/
theorem Loads.of_loaded {v w : Visits} {es : List Event} (hes : asked es = []) (hw : w.loaded = v.loaded) :
    Loads v es w :=
  ⟨by rw [hw, hes]; rfl, fun h => hw ▸ h⟩

/-- A file that was not loaded before is named when it is. -/
theorem Loads.visit {v w : Visits} {p : Path} {es : List Event} (hp : v.isLoaded p = false)
    (h : Loads { v with loaded := p :: v.loaded } es w) : Loads v (.loadingInclude p :: es) w where
  loaded := by
    have hasked : asked (.loadingInclude p :: es) = p :: asked es := rfl
    rw [h.loaded, hasked, List.reverse_cons, List.append_assoc]
    rfl
  distinct hv := h.distinct (List.nodup_cons.mpr ⟨Visits.isLoaded_eq_false.mp hp, hv⟩)

section Loads
variable {r : Registry} {l : Library} {build : SchemaDecl → Path → Bool → Edit Visits Schema}

theorem loads_buildInclude (hbuild : ∀ decl p b v, (build decl p b).Follows Loads v) (location : Option Path)
    (i : IncludeDecl) (v : Visits) : (buildInclude l build location i).Follows Loads v := by
  refine (follows_ofExcept trail_loads _).bind trail_loads fun p v _ => .of_get ?_
  split
  · exact follows_fail trail_loads _
  · split
    · exact (follows_report (.of_loaded rfl rfl)).bind trail_loads fun _ _ _ => follows_pure trail_loads _
    · rename_i hloaded
      -- The file is put among the loaded ones and then named: the two go together.
      refine Loads.visit (by simpa using hloaded) (?_ : Follows Loads _ { v with loaded := p :: v.loaded })
      refine (follows_ofExcept trail_loads _).bind trail_loads fun decl u _ => ?_
      refine (follows_modify (.of_loaded rfl rfl)).bind trail_loads fun _ u _ => ?_
      refine (hbuild decl p i.referenceOnly u).bind trail_loads fun schema u _ => ?_
      exact (follows_modify (.of_loaded rfl rfl)).bind trail_loads fun _ _ _ => follows_pure trail_loads _

theorem loads_buildDecl (hbuild : ∀ decl p b v, (build decl p b).Follows Loads v) (decl : SchemaDecl)
    (location : Option Path) (referenceOnly : Bool) (v : Visits) :
    (buildDecl r l build decl location referenceOnly).Follows Loads v := by
  refine (follows_ofExcept trail_loads _).bind trail_loads fun head v _ => ?_
  have hincludes : (gather (buildInclude l build location) decl.includes).Follows Loads v :=
    .gather trail_loads fun i _ => loads_buildInclude hbuild location i
  refine hincludes.bind trail_loads fun included v _ => ?_
  refine (follows_ofExcept trail_loads _).bind trail_loads fun d v _ => ?_
  have htables := asked_addDeclaredTables r referenceOnly decl.tables d
  refine (htables.starting fun _ _ h => .of_loaded h rfl).bind trail_loads fun _ v _ => ?_
  have hmerge := fun s => Follows.forEach (s := s) trail_asked fun i (_ : i ∈ included) s => asked_addInclude i s
  refine ((hmerge _).starting fun _ _ h => .of_loaded h rfl).bind trail_loads fun p v _ => ?_
  exact (follows_ofExcept trail_loads _).bind trail_loads fun _ _ _ => follows_pure trail_loads _

theorem loads_buildNested (depth : Nat) (decl : SchemaDecl) (location : Option Path) (referenceOnly : Bool)
    (v : Visits) : (buildNested r l depth decl location referenceOnly).Follows Loads v := by
  induction depth generalizing decl location referenceOnly v with
  | zero => exact loads_buildDecl (fun _ _ _ _ => follows_fail trail_loads _) decl location referenceOnly v
  | succ depth ih => exact loads_buildDecl (fun decl p b v => ih decl (some p) b v) decl location referenceOnly v

end Loads

/-! ### Only the named files -/

section Agrees
variable {r : Registry} {l l' : Library} {build build' : SchemaDecl → Path → Bool → Edit Visits Schema}

/-- Both libraries say the same about the file that an event names. -/
def SameAt (l l' : Library) (e : Event) : Prop :=
  ∀ p, e = .loadingInclude p → l'.load p = l.load p

theorem agrees_buildInclude (hbuild : ∀ decl p b v, (build decl p b).Agrees (SameAt l l') (build' decl p b) v)
    (location : Option Path) (i : IncludeDecl) (v : Visits) :
    (buildInclude l build location i).Agrees (SameAt l l') (buildInclude l' build' location i) v := by
  refine (agrees_refl _).bind fun p v _ => .of_get ?_
  split
  · exact agrees_refl _
  · split
    · exact agrees_refl _
    · refine (agrees_refl _).bind fun _ v _ => .of_report fun hsame => ?_
      have hload : loadDecl l' p = loadDecl l p := by rw [loadDecl, hsame p rfl, loadDecl]
      rw [hload]
      refine (agrees_refl _).bind fun decl v _ => (agrees_refl _).bind fun _ v _ => ?_
      exact (hbuild decl p i.referenceOnly v).bind fun _ _ _ => agrees_refl _

theorem agrees_buildDecl (hbuild : ∀ decl p b v, (build decl p b).Agrees (SameAt l l') (build' decl p b) v)
    (decl : SchemaDecl) (location : Option Path) (referenceOnly : Bool) (v : Visits) :
    (buildDecl r l build decl location referenceOnly).Agrees (SameAt l l')
      (buildDecl r l' build' decl location referenceOnly) v :=
  (agrees_refl _).bind fun _ v _ =>
    (Agrees.gather (agrees_buildInclude hbuild location) _ v).bind fun _ _ _ => agrees_refl _

theorem agrees_buildNested (depth : Nat) (decl : SchemaDecl) (location : Option Path) (referenceOnly : Bool)
    (v : Visits) : (buildNested r l depth decl location referenceOnly).Agrees (SameAt l l')
      (buildNested r l' depth decl location referenceOnly) v := by
  induction depth generalizing decl location referenceOnly v with
  | zero => exact agrees_buildDecl (fun _ _ _ _ => agrees_refl _) decl location referenceOnly v
  | succ depth ih => exact agrees_buildDecl (fun decl p b v => ih decl (some p) b v) decl location referenceOnly v

end Agrees

end Schemata
