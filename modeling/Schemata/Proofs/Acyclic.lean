import Schemata.Proofs.Includes

/-!
# Runs over files at hand

A run that builds a tree or loads a file from files at hand ends, looks for no file twice, and succeeds
only where no file that it reaches includes itself, directly or through others.
-/

namespace Schemata

open Change Relation

/-! ### Files at hand -/

namespace Library

variable {files : List (Path × Json)}

theorem find?_congr {p q : Path} (h : p.components = q.components) : find? files p = find? files q := by
  have hsame : (fun f : Path × Json => f.1.same p) = fun f => f.1.same q := by
    funext f
    rw [Path.same, Path.same, h]
  rw [find?, hsame, find?]

theorem load_ofFiles_congr {p q : Path} (h : p.components = q.components) :
    (ofFiles files).load p = (ofFiles files).load q := by
  simp only [ofFiles, find?_congr h]

theorem mem_of_load {p : Path} {j : Json} (h : (ofFiles files).load p = .ok j) :
    p.components ∈ files.map fun f => f.1.components := by
  unfold ofFiles at h
  dsimp only at h
  split at h
  · rename_i j' hj
    obtain ⟨f, hf, -⟩ := Option.map_eq_some_iff.mp hj
    obtain ⟨hmem, hsame⟩ := List.mem_filter.mp (List.mem_of_getLast? hf)
    exact List.mem_map.mpr ⟨f, hmem, Path.same_iff.mp hsame⟩
  · cases h

theorem load_eq_error {p : Path} {e : LoadError} (h : (ofFiles files).load p = .error e) : e = .unknownFile := by
  unfold ofFiles at h
  dsimp only at h
  split at h
  · cases h
  · cases h
    rfl

end Library

/-! ### Whole runs -/

/-- What is in a file of a library. -/
def declAt (l : Library) (x : Option Path) : Option SchemaDecl :=
  x.bind fun p => (loadDecl l p).toOption

/-- What is in a file while a tree is built: the tree is at `start`, whatever the library has there. -/
def declFrom (l : Library) (start : Option Path) (j : Json) (x : Option Path) : Option SchemaDecl :=
  if x.map Path.components = start.map Path.components then (SchemaDecl.record.shape j).toOption else declAt l x

section Source
variable {files : List (Path × Json)} {start : Option Path} {j : Json}

theorem toOption_loadDecl_of_ok {l : Library} {p : Path} (h : l.load p = .ok j) :
    (loadDecl l p).toOption = (SchemaDecl.record.shape j).toOption := by
  simp only [loadDecl, h]
  cases SchemaDecl.record.shape j with
  | ok decl => rfl
  | error e => rfl

theorem toOption_loadDecl_of_error {l : Library} {p : Path} {e : LoadError} (h : l.load p = .error e) :
    (loadDecl l p).toOption = none := by
  simp only [loadDecl, h]
  rfl

theorem declAt_congr {l : Library} {p q : Path} (h : l.load p = l.load q) : declAt l (some p) = declAt l (some q) := by
  show (loadDecl _ p).toOption = (loadDecl _ q).toOption
  cases hp : l.load p with
  | ok j => rw [toOption_loadDecl_of_ok hp, toOption_loadDecl_of_ok (h ▸ hp)]
  | error e => rw [toOption_loadDecl_of_error hp, toOption_loadDecl_of_error (h ▸ hp)]

theorem respectful_declAt : Respectful (declAt (.ofFiles files)) :=
  fun _ _ h => declAt_congr (Library.load_ofFiles_congr h)

theorem Respectful.declFrom {l : Library} (hl : Respectful (declAt l)) : Respectful (declFrom l start j) := by
  intro p q h
  rw [Schemata.declFrom, Schemata.declFrom, Option.map_some, Option.map_some, h, hl p q h]

theorem declFrom_start {l : Library} {decl : SchemaDecl} (h : SchemaDecl.record.shape j = .ok decl) :
    declFrom l start j start = some decl := by
  rw [declFrom, if_pos rfl, h]
  rfl

theorem declFrom_stored {l : Library} : Stored l (declFrom l start j) start := by
  intro p h
  rw [declFrom, Option.map_some, if_neg (Ne.symm h)]
  rfl

/-- A tree that was loaded from its own file is what is in that file. -/
theorem declFrom_of_load {l : Library} (hl : Respectful (declAt l)) {p : Path} (h : l.load p = .ok j) :
    declFrom l (some p) j = declAt l := by
  funext x
  unfold declFrom
  split
  · rename_i hx
    obtain ⟨q, rfl, hq⟩ := Option.map_eq_some_iff.mp hx
    rw [hl q p hq]
    exact (toOption_loadDecl_of_ok h).symm
  · rfl

end Source

theorem sameAt_of_asked {l l' : Library} {log : List Event} (h : ∀ p ∈ asked log, l'.load p = l.load p) :
    ∀ e ∈ log, SameAt l l' e := by
  rintro e he p rfl
  exact h p (List.mem_filterMap.mpr ⟨_, he, rfl⟩)

/-- What holds of the includes of a run that begins with the file `start`. It ends before the bound on the
    depth is reached; where it says that a file includes itself there is a cycle; it looks for no file twice
    and for no others than it logs; where it succeeds there is no cycle among the files that are reached. -/
structure SoundIncludes (run : Library → Outcome Error Unit Schema) (l : Library) (start : Option Path)
    (source : Option Path → Option SchemaDecl) : Prop where
  ends : ∀ p, (run l).result ≠ .error (.load p .tooDeep)
  honest : ∀ p, (run l).result = .error (.load p .includesItself) →
    ∃ x, ReflTransGen (Includes source) start x ∧ TransGen (Includes source) x x
  once : ((start.toList ++ asked (run l).log).map Path.components).Nodup
  only : ∀ l', l'.depth = l.depth → (∀ p ∈ start.toList ++ asked (run l).log, l'.load p = l.load p) → run l' = run l
  acyclic : ∀ s, (run l).result = .ok s →
    ∀ x, ReflTransGen (Includes source) start x → ¬TransGen (Includes source) x x

namespace Schema

variable {r : Registry} {l : Library} {start : Option Path} {j : Json}

theorem build_misshapen {e : ShapeError} (h : SchemaDecl.record.shape j = .error e) :
    build r l start j () = ⟨.error (.configuration (.misshapen e)), (), []⟩ := by
  unfold build
  rw [h]
  rfl

theorem build_of_shape {decl : SchemaDecl} (h : SchemaDecl.record.shape j = .ok decl) :
    build r l start j =
      starting (startVisits start) (buildNested r l (l.depth + 1) decl start false) >>= fun p => pure p.1 := by
  unfold build
  rw [h]
  rfl

theorem log_build {decl : SchemaDecl} (h : SchemaDecl.record.shape j = .ok decl) :
    (build r l start j ()).log = (buildNested r l (l.depth + 1) decl start false (startVisits start)).log := by
  rw [build_of_shape h, log_bind_pure, log_starting]

theorem result_build {decl : SchemaDecl} (h : SchemaDecl.record.shape j = .ok decl) :
    (build r l start j ()).result = (buildNested r l (l.depth + 1) decl start false (startVisits start)).result := by
  rw [build_of_shape h]
  show (Change.bind (starting _ _) _ ()).result = _
  unfold Change.bind starting
  dsimp only
  cases (buildNested r l (l.depth + 1) decl start false (startVisits start)).result <;> rfl

theorem gives_build {s : Schema} (h : (build r l start j ()).result = .ok s) :
    ∃ decl v, SchemaDecl.record.shape j = .ok decl ∧
      (buildNested r l (l.depth + 1) decl start false).Gives (startVisits start) s v := by
  have hgives : (build r l start j).Gives () s (build r l start j ()).state := ⟨h, rfl⟩
  simp only [build, gives_bind, gives_ofExcept] at hgives
  obtain ⟨decl, _, ⟨hdecl, -⟩, ⟨s', v⟩, _, hs, hpure⟩ := hgives
  obtain ⟨rfl, -⟩ := gives_pure.mp hpure
  obtain ⟨hnested, -⟩ := gives_starting.mp hs
  refine ⟨decl, v, ?_, hnested⟩
  cases hshape : SchemaDecl.record.shape j with
  | ok decl' =>
    rw [hshape] at hdecl
    cases hdecl
    rfl
  | error e =>
    rw [hshape] at hdecl
    cases hdecl

theorem build_fails {P : Error → Prop} [Error.Allows P]
    (h : ∀ decl, SchemaDecl.record.shape j = .ok decl →
      (buildNested r l (l.depth + 1) decl start false).FailsWithin P (startVisits start)) :
    Schemata.FailsWithin P (build r l start j ()).result := by
  cases hdecl : SchemaDecl.record.shape j with
  | error e =>
    rw [build_misshapen hdecl]
    exact failsWithin_of_isOrdinary trivial
  | ok decl =>
    have hdecl' : ((SchemaDecl.record.shape j).mapError fun e => Error.configuration (.misshapen e)) = .ok decl := by
      rw [hdecl]
      rfl
    refine FailsWithin.bind (failsWithin_ofExcept (by rw [hdecl']; trivial)) fun decl' _ hgives => ?_
    obtain ⟨heq, -⟩ := gives_ofExcept.mp hgives
    obtain rfl := Except.ok.inj (hdecl'.symm.trans heq)
    exact (FailsWithin.starting (h decl hdecl)).bind fun _ _ _ => failsWithin_pure _

theorem agrees_build {l' : Library} (hdepth : l'.depth = l.depth) :
    (build r l start j).Agrees (SameAt l l') (build r l' start j) () := by
  unfold build
  rw [hdepth]
  exact (agrees_refl _).bind fun decl _ _ => (agrees_buildNested _ decl start false _).starting.bind fun _ _ _ =>
    agrees_refl _

/-- The first file is on the stack, with room for all files of the library. -/
theorem hasRoom_startVisits (files : List (Path × Json)) :
    (startVisits start).HasRoom ((start.toList.map Path.components) ++ files.map fun f => f.1.components)
      (files.length + 1) := by
  cases start with
  | none => exact ⟨List.nodup_nil, List.nil_subset _, by simp [startVisits]⟩
  | some p =>
    exact ⟨List.nodup_cons.mpr ⟨List.not_mem_nil, List.nodup_nil⟩, by simp [startVisits], by simp [startVisits]⟩

theorem nodup_of_loads {es : List Event} {w : Visits} (h : Loads (startVisits start) es w) :
    ((start.toList ++ asked es).map Path.components).Nodup := by
  have hloaded : (startVisits start).loaded = start.toList := by cases start <;> rfl
  have hstart : ((startVisits start).loaded.map Path.components).Nodup := by
    rw [hloaded]
    exact Visits.nodup_start start
  have hperm : (start.toList ++ asked es).Perm w.loaded := by
    rw [h.loaded, hloaded]
    exact List.perm_append_comm.trans ((List.reverse_perm _).symm.append_right _)
  exact (hperm.map _).nodup_iff.mpr (h.distinct hstart)

theorem hasStart_startVisits : HasStart start (startVisits start) := by
  rintro p rfl
  simp [startVisits, Visits.isBuilding, Path.same_refl]

theorem explored_startVisits {source : Option Path → Option SchemaDecl} :
    Explored source start (startVisits start) := by
  refine ⟨hasStart_startVisits, fun p hp => .inl ?_⟩
  cases start with
  | none => cases hp
  | some q => exact hp

theorem onWay_startVisits {source : Option Path → Option SchemaDecl} :
    OnWay source start start (startVisits start) := by
  refine ⟨hasStart_startVisits, .refl, fun q hq => ?_⟩
  cases start with
  | none => cases hq
  | some p =>
    obtain rfl := List.mem_singleton.mp hq
    exact ⟨.refl, .refl⟩

theorem acyclic_of_build (hl : Respectful (declAt l)) {s : Schema} (h : (build r l start j ()).result = .ok s)
    (x : Option Path) (hx : ReflTransGen (Includes (declFrom l start j)) start x) :
    ¬TransGen (Includes (declFrom l start j)) x x := by
  obtain ⟨decl, v, hdecl, hgives⟩ := gives_build h
  have hdone := (explored_buildNested hl.declFrom declFrom_stored (declFrom_start hdecl) explored_startVisits hgives).2
  exact (hdone.of_reached hx).not_cyclic

theorem build_sound (r : Registry) (files : List (Path × Json)) (start : Option Path) (j : Json) :
    SoundIncludes (fun l => build r l start j ()) (.ofFiles files) start (declFrom (.ofFiles files) start j) where
  ends p hp := by
    have hfails : FailsWithin Error.IsReal (build r (.ofFiles files) start j ()).result := by
      refine build_fails fun decl _ => ?_
      refine buildNested_isReal ?_ ?_ _ decl start false (hasRoom_startVisits files)
      · exact fun p j h => List.mem_append_right _ (Library.mem_of_load h)
      · rintro p e h
        cases Library.load_eq_error h
        trivial
    rw [hp] at hfails
    exact hfails
  honest p hp := by
    have hfails : FailsWithin (Error.IsHonest (declFrom (.ofFiles files) start j) start)
        (build r (.ofFiles files) start j ()).result := by
      refine build_fails fun decl hdecl => ?_
      refine buildNested_isHonest declFrom_stored ?_ _ false (declFrom_start hdecl) onWay_startVisits
      rintro p e h
      cases Library.load_eq_error h
      simp
    rw [hp] at hfails
    exact hfails p rfl
  once := by
    cases hdecl : SchemaDecl.record.shape j with
    | error e =>
      rw [build_misshapen hdecl]
      exact nodup_of_loads (trail_loads.refl _)
    | ok decl =>
      rw [log_build hdecl]
      exact nodup_of_loads (loads_buildNested _ decl start false (startVisits start))
  only l' hdepth h := agrees_build hdepth (sameAt_of_asked fun p hp => h p (List.mem_append_right _ hp))
  acyclic s hs := acyclic_of_build respectful_declAt hs

theorem load_of_error {p : Path} {e : LoadError} (h : l.load p = .error e) :
    load r l p () = ⟨.error (.load p e), (), []⟩ := by
  unfold load
  rw [h]
  rfl

theorem load_of_ok {p : Path} (h : l.load p = .ok j) : load r l p () = build r l (some p) j () := by
  unfold load
  rw [h]

theorem load_sound_of_error (r : Registry) {files : List (Path × Json)} {p : Path} {e : LoadError}
    (h : (Library.ofFiles files).load p = .error e) :
    SoundIncludes (fun l => load r l p ()) (.ofFiles files) (some p) (declAt (.ofFiles files)) where
  ends q hq := by
    rw [load_of_error h, Library.load_eq_error h] at hq
    cases hq
  honest q hq := by
    rw [load_of_error h, Library.load_eq_error h] at hq
    cases hq
  once := by
    rw [load_of_error h]
    exact nodup_of_loads (trail_loads.refl _)
  only l' _ hsame := by
    have hload : l'.load p = .error e := (hsame p List.mem_cons_self).trans h
    rw [load_of_error hload, load_of_error h]
  acyclic s hs := by
    rw [load_of_error h] at hs
    cases hs

theorem load_sound_of_ok (r : Registry) {files : List (Path × Json)} {p : Path}
    (h : (Library.ofFiles files).load p = .ok j) :
    SoundIncludes (fun l => load r l p ()) (.ofFiles files) (some p) (declAt (.ofFiles files)) := by
  have hbuild := build_sound r files (some p) j
  rw [declFrom_of_load respectful_declAt h] at hbuild
  refine ⟨?_, ?_, ?_, ?_, ?_⟩ <;> rw [load_of_ok h]
  · exact hbuild.ends
  · exact hbuild.honest
  · exact hbuild.once
  · intro l' hdepth hsame
    have hload : l'.load p = .ok j := (hsame p List.mem_cons_self).trans h
    rw [load_of_ok hload]
    exact hbuild.only l' hdepth hsame
  · exact hbuild.acyclic

/-- Building a tree at a place, and loading a file, from any files at hand. -/
theorem sound_includes (r : Registry) (files : List (Path × Json)) :
    (∀ start j,
      SoundIncludes (fun l => build r l start j ()) (.ofFiles files) start (declFrom (.ofFiles files) start j)) ∧
      ∀ p, SoundIncludes (fun l => load r l p ()) (.ofFiles files) (some p) (declAt (.ofFiles files)) := by
  refine ⟨build_sound r files, fun p => ?_⟩
  cases h : (Library.ofFiles files).load p with
  | error e => exact load_sound_of_error r h
  | ok j => exact load_sound_of_ok r h

def treeIncluding (name : String) (filenames : List String) : Json :=
  .obj [("name", .str name), ("external-schemas", .arr (filenames.map fun f => .obj [("filename", .str f)]))]

/-- Two files that include the same third one, under two names. -/
def diamond : List (Path × Json) :=
  [(⟨"shop/main.json"⟩, treeIncluding "main" ["orders.json", "stock.json"]),
    (⟨"shop/orders.json"⟩, treeIncluding "orders" ["goods.json"]),
    (⟨"shop/stock.json"⟩, treeIncluding "stock" ["./goods.json"]),
    (⟨"shop/goods.json"⟩, treeIncluding "goods" [])]

theorem sound_includes_diamond :
    asked (load {} (.ofFiles diamond) ⟨"shop/main.json"⟩ ()).log =
        [⟨"shop/orders.json"⟩, ⟨"shop/goods.json"⟩, ⟨"shop/stock.json"⟩] ∧
      (∃ s, (load {} (.ofFiles diamond) ⟨"shop/main.json"⟩ ()).result = .ok s) ∧
      ∀ x, ReflTransGen (Includes (declAt (.ofFiles diamond))) (some ⟨"shop/main.json"⟩) x →
        ¬TransGen (Includes (declAt (.ofFiles diamond))) x x := by
  have hok : (load {} (.ofFiles diamond) ⟨"shop/main.json"⟩ ()).result.toOption.isSome = true := by decide +kernel
  cases hs : (load {} (.ofFiles diamond) ⟨"shop/main.json"⟩ ()).result with
  | error e =>
    rw [hs] at hok
    cases hok
  | ok s => exact ⟨by decide +kernel, ⟨s, rfl⟩, ((sound_includes {} diamond).2 ⟨"shop/main.json"⟩).acyclic s hs⟩

/-- The stack and not the first file closes this cycle. -/
example :
    (load {} (.ofFiles [(⟨"shop/main.json"⟩, treeIncluding "main" ["orders.json"]),
      (⟨"shop/orders.json"⟩, treeIncluding "orders" ["stock.json"]),
      (⟨"shop/stock.json"⟩, treeIncluding "stock" ["./orders.json"])]) ⟨"shop/main.json"⟩ ()).result =
    .error (.load ⟨"shop/./orders.json"⟩ .includesItself) := rfl

end Schema

end Schemata
