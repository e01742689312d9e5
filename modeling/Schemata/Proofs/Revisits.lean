import Schemata.Proofs.Assembly
import Schemata.Proofs.IncludeTargets
import Schemata.Proofs.Respelling

/-!
# Files that are built again

Two libraries have the same files, but the includes of the one are written in another way than those of the
other. Where the other one always uses the same spelling of a file, it builds the file once, while the first
one may build it again under another spelling. As long as that file has no tables, nothing comes of it: both
runs visit the same files and end with the same database.
-/

namespace Schemata

open Change Relation

/-! ### Two runs beside each other -/

/-- Two libraries with the same files, where everything that is reached in the second one is always reached under the
    same spelling, as are in the first one the files with tables. -/
structure Respelled (l l' : Library) (source source' : Option Path → Option SchemaDecl) (start : Option Path) : Prop where
  stored : Stored l source start
  stored' : Stored l' source' start
  respectful' : Respectful source'
  respelling : Respelling source source' start
  once : OneSpelling source start (HasTables source)
  once' : OneSpelling source' start fun _ => True
  acyclic' : ∀ x, ReflTransGen (Includes source') start x → ¬TransGen (Includes source') x x

/-- Two runs have loaded the same files. -/
structure SameFiles (source source' : Option Path → Option SchemaDecl) (start : Option Path) (v v' : Visits) : Prop where
  loaded : ∀ way, way ∈ v.loaded.map Path.destination ↔ way ∈ v'.loaded.map Path.destination
  reached : ∀ p ∈ v.loaded, ReflTransGen (Includes source) start (some p)
  reached' : ∀ p ∈ v'.loaded, ReflTransGen (Includes source') start (some p)

/-- In another library there is a way from each file on the stack to the file `x'`. -/
structure LeadsTo (source' : Option Path → Option SchemaDecl) (start x' : Option Path) (v : Visits) : Prop where
  hasStart : HasStart start v
  through : ∀ q ∈ v.building, ∃ q', q'.destination = q.destination ∧
    ReflTransGen (Includes source') start (some q') ∧ ReflTransGen (Includes source') (some q') x'

section Runs
variable {r : Registry} {l l' : Library} {source source' : Option Path → Option SchemaDecl}
  {start x x' : Option Path} {v v' w w' : Visits} {p p' : Path}

theorem SchemaDecl.Respells.isSound {decl decl' : SchemaDecl}
    (h : decl.Respells x x' decl') {head equipped : Database} (hhead : Database.head decl' = .ok head)
    (hequipped : head.addSettings r decl' = .ok equipped) :
    Database.head decl = .ok head ∧ head.addSettings r decl = .ok equipped := by
  rw [h.rest] at hhead hequipped
  exact ⟨hhead, hequipped⟩

theorem Visits.destination_mem (h : v.isLoaded p = true) : p.destination ∈ v.loaded.map Path.destination := by
  obtain ⟨q, hq, hqp⟩ := Visits.isLoaded_iff.mp h
  exact Path.destination_congr hqp ▸ List.mem_map_of_mem hq

namespace SameFiles

theorem visit (h : SameFiles source source' start v v') (hp : Twins source source' start (some p) (some p')) :
    SameFiles source source' start (v.visit p) (v'.visit p') where
  loaded way := by
    show way ∈ (p :: v.loaded).map Path.destination ↔ way ∈ (p' :: v'.loaded).map Path.destination
    rw [List.map_cons, List.map_cons, List.mem_cons, List.mem_cons, h.loaded, Option.some.inj hp.same]
  reached q hq := by
    rcases List.mem_cons.mp hq with rfl | hq
    · exact hp.reached
    · exact h.reached q hq
  reached' q hq := by
    rcases List.mem_cons.mp hq with rfl | hq
    · exact hp.reached'
    · exact h.reached' q hq

/-- A file that the second run has loaded may be loaded again by the first one. -/
theorem revisit (h : SameFiles source source' start v v') (hp : Twins source source' start (some p) (some p'))
    (hloaded' : v'.isLoaded p' = true) : SameFiles source source' start (v.visit p) v' where
  loaded way := by
    have hway : p.destination ∈ v'.loaded.map Path.destination := by
      rw [Option.some.inj hp.same]
      exact Visits.destination_mem hloaded'
    show way ∈ (p :: v.loaded).map Path.destination ↔ _
    rw [List.map_cons, List.mem_cons, h.loaded]
    exact or_iff_right_of_imp fun heq => heq ▸ hway
  reached := (h.visit hp).reached
  reached' := h.reached'

/-- What the first run has loaded is loaded in the second one. -/
theorem isLoaded (h : SameFiles source source' start v v') (hl : Respelled l l' source source' start)
    (hp : Twins source source' start (some p) (some p')) (hloaded : v.isLoaded p = true) : v'.isLoaded p' = true := by
  have hway : p'.destination ∈ v.loaded.map Path.destination := by
    rw [← Option.some.inj hp.same]
    exact Visits.destination_mem hloaded
  obtain ⟨q', hq', hsame⟩ := List.mem_map.mp ((h.loaded _).mp hway)
  exact Visits.isLoaded_iff.mpr ⟨q', hq', hl.once' q' p' (h.reached' q' hq') hp.reached' trivial hsame⟩

/-- What only the second run has loaded has no tables. -/
theorem tables_eq_nil (h : SameFiles source source' start v v') (hl : Respelled l l' source source' start)
    (hp : Twins source source' start (some p) (some p')) {decl : SchemaDecl} (hdecl : source (some p) = some decl)
    (hloaded : v.isLoaded p = false) (hloaded' : v'.isLoaded p' = true) : decl.tables = [] := by
  by_contra htables
  have hway : p.destination ∈ v'.loaded.map Path.destination := by
    rw [Option.some.inj hp.same]
    exact Visits.destination_mem hloaded'
  obtain ⟨q, hq, hsame⟩ := List.mem_map.mp ((h.loaded _).mpr hway)
  have hcomps := hl.once p q hp.reached (h.reached q hq) ⟨decl, hdecl, htables⟩ hsame.symm
  rw [Visits.isLoaded_iff.mpr ⟨q, hq, hcomps.symm⟩] at hloaded
  cases hloaded

end SameFiles

namespace LeadsTo

theorem of_building (h : LeadsTo source' start x' v) (hw : w.building = v.building) : LeadsTo source' start x' w :=
  ⟨h.hasStart.of_building hw, hw ▸ h.through⟩

theorem visit (h : LeadsTo source' start x' v) (hp : Twins source source' start (some p) (some p'))
    (hx : Includes source' x' (some p')) : LeadsTo source' start (some p') (v.visit p) where
  hasStart := h.hasStart.visit p
  through q hq := by
    rcases List.mem_cons.mp hq with rfl | hq
    · exact ⟨p', (Option.some.inj hp.same).symm, hp.reached', .refl⟩
    · obtain ⟨q', hsame, hreached, hway⟩ := h.through q hq
      exact ⟨q', hsame, hreached, hway.tail hx⟩

/-- No file is included that is on the stack: the other library would have a cycle. -/
theorem isBuilding_eq_false (h : LeadsTo source' start x' v) (hl : Respelled l l' source source' start)
    (hp : Twins source source' start (some p) (some p')) (hx : Includes source' x' (some p')) :
    v.isBuilding p = false := by
  cases hbuilding : v.isBuilding p with
  | false => rfl
  | true =>
    obtain ⟨q, hq, hqp⟩ := List.any_eq_true.mp hbuilding
    obtain ⟨q', hsame, hreached, hway⟩ := h.through q hq
    have hdest : q'.destination = p'.destination := by
      rw [hsame, Path.destination_congr (Path.same_iff.mp hqp), Option.some.inj hp.same]
    have hback := hx.of_same (hl.once' q' p' hreached hp.reached' trivial hdest).symm
    exact absurd (TransGen.tail' hway hback) (hl.acyclic' _ hreached)

end LeadsTo

/-! ### Merging what was built -/

/-- The included schemas are the same, apart from some in the first list that have no tables. -/
inductive SameTables : List (Included Schema) → List (Included Schema) → Prop where
  | nil : SameTables [] []
  | both {i i' is is' d} (referenceOnly : i'.referenceOnly = i.referenceOnly) (database : i.schema.databases = [d])
      (database' : i'.schema.databases = [d]) (rest : SameTables is is') : SameTables (i :: is) (i' :: is')
  | bare {i is is' d} (database : i.schema.databases = [d]) (tables : d.tables = []) (rest : SameTables is is') :
      SameTables (i :: is) is'

theorem Schema.gives_mergeDatabase_bare (d : Database) {source : Database} (hsource : source.tables = [])
    (referenceOnly : Bool) : (Schema.mergeDatabase source referenceOnly).Gives [d] () [d] := by
  simp only [Schema.mergeDatabase, gives_bind, gives_get]
  refine ⟨_, _, ⟨rfl, rfl⟩, ?_⟩
  rw [Schema.mergeTarget?_only, hsource]
  exact gives_forEach_nil.mpr rfl

/-- Included schemas without tables make no difference for what the others are merged into. -/
theorem SameTables.merge {included included' : List (Included Schema)} (h : SameTables included included')
    {s s' t' : Schema} {d : Database} (hs : s.databases = [d]) (hs' : s'.databases = [d])
    (hmerged : (forEach Schema.addInclude included').Gives s' () t') :
    ∃ t e, (forEach Schema.addInclude included).Gives s () t ∧ t.databases = [e] ∧ t'.databases = [e] := by
  induction h generalizing s s' d with
  | nil =>
    obtain rfl := gives_forEach_nil.mp hmerged
    exact ⟨s, d, gives_forEach_nil.mpr rfl, hs, hs'⟩
  | @both i i' is is' source referenceOnly database database' _ ih =>
    obtain ⟨u', hfirst', hrest'⟩ := gives_forEach_cons.mp hmerged
    obtain ⟨e, he, -⟩ := Schema.gives_addInclude_only hs' database' hfirst'
    obtain ⟨ds, hds, rfl⟩ := Schema.gives_addInclude.mp hfirst'
    rw [hs', ← hs, database', ← database, referenceOnly] at hds
    have hu : ({ s with databases := ds, includes := s.includes ++ [i] } : Schema).databases = [e] := he
    obtain ⟨t, f, hrest, ht, ht'⟩ := ih hu he hrest'
    exact ⟨t, f, gives_forEach_cons.mpr ⟨_, Schema.gives_addInclude.mpr ⟨ds, hds, rfl⟩, hrest⟩, ht, ht'⟩
  | @bare i is is' source database tables _ ih =>
    have hone : (forEach (Schema.mergeDatabase · i.referenceOnly) i.schema.databases).Gives s.databases () [d] := by
      rw [hs, database]
      exact gives_forEach_self fun _ hmem =>
        (List.mem_singleton.mp hmem) ▸ Schema.gives_mergeDatabase_bare d tables i.referenceOnly
    have hu : ({ s with databases := [d], includes := s.includes ++ [i] } : Schema).databases = [d] := rfl
    obtain ⟨t, f, hrest, ht, ht'⟩ := ih hu hs' hmerged
    exact ⟨t, f, gives_forEach_cons.mpr ⟨_, Schema.gives_addInclude.mpr ⟨[d], hone, rfl⟩, hrest⟩, ht, ht'⟩

theorem SameTables.append {is is' js js' : List (Included Schema)} (h : SameTables is is') (hjs : SameTables js js') :
    SameTables (is ++ js) (is' ++ js') := by
  induction h with
  | nil => exact hjs
  | both referenceOnly database database' _ ih => exact .both referenceOnly database database' ih
  | bare database tables _ ih => exact .bare database tables ih

/-! ### A file that is built again -/

/-- The error at the bound on the depth. -/
def Error.IsTooDeep (e : Error) : Prop :=
  ∃ p, e = .load p .tooDeep

/-- When the second run has finished a file, the first one may build it again if it has no tables. -/
def BuildsAgain (r : Registry) (source source' : Option Path → Option SchemaDecl) (start : Option Path)
    (build : SchemaDecl → Path → Bool → Edit Visits Schema) : Prop :=
  ∀ decl p p' b v v', source (some p) = some decl → decl.tables = [] →
    Twins source source' start (some p) (some p') → Finished r source' v'.loaded (some p') →
    SameFiles source source' start v v' → LeadsTo source' start (some p') v →
    (build decl p b).GivesUnless Error.IsTooDeep v fun s w =>
      (∃ d, s.databases = [d] ∧ d.tables = []) ∧ SameFiles source source' start w v'

section Again
variable {build : SchemaDecl → Path → Bool → Edit Visits Schema} (hl : Respelled l l' source source' start)
  (hkept : ∀ decl p b v s w, (build decl p b).Gives v s w → w.building = v.building)
  (hagain : BuildsAgain r source source' start build)
include hl hkept hagain

omit hkept in
theorem revisit_buildInclude {i i' : IncludeDecl} (hx : Twins source source' start x x')
    (hi : TwinIncludes source source' x x' i i') (hp' : resolveInclude x' i'.filename = .ok p')
    (hloaded' : v'.isLoaded p' = true) (hfinished : Finished r source' v'.loaded (some p'))
    (hv : SameFiles source source' start v v') (hstack : LeadsTo source' start x' v) :
    (buildInclude l build x i).GivesUnless Error.IsTooDeep v fun o w =>
      SameTables o.toList [] ∧ SameFiles source source' start w v' := by
  obtain ⟨hinc', p, hp, htwins⟩ := hi.twins hx hp'
  have hfree := hstack.isBuilding_eq_false hl htwins hinc'
  cases hloaded : v.isLoaded p with
  | true => exact .of_gives (buildInclude_again hp hfree hloaded) ⟨.nil, hv⟩
  | false =>
    obtain ⟨decl', hdecl', -⟩ := hfinished _ .refl
    obtain ⟨decl, hdecl, -⟩ := hl.respelling _ _ decl' htwins.reached htwins.reached' htwins.same hdecl'
    have hbare := hv.tables_eq_nil hl htwins hdecl hloaded hloaded'
    have hbuild := hagain decl p p' i.referenceOnly (v.visit p) v' hdecl hbare htwins hfinished
      (hv.revisit htwins hloaded') (hstack.visit htwins hinc')
    refine buildInclude_new hp hfree hloaded (hl.stored.loadDecl_eq hstack.hasStart hfree hdecl) hbuild ?_
    rintro s u - ⟨⟨d, hd, htables⟩, hu⟩
    exact ⟨.bare hd htables .nil, ⟨hu.loaded, hu.reached, hu.reached'⟩⟩

theorem revisit_gather (hx : Twins source source' start x x') (hfinished : Finished r source' v'.loaded x')
    {is is' : List IncludeDecl} (his : List.Forall₂ (TwinIncludes source source' x x') is is')
    (hv : SameFiles source source' start v v') (hstack : LeadsTo source' start x' v) :
    (gather (buildInclude l build x) is).GivesUnless Error.IsTooDeep v fun included w =>
      SameTables included [] ∧ SameFiles source source' start w v' := by
  induction his generalizing v with
  | nil => exact .of_gives (gives_pure.mpr ⟨rfl, rfl⟩) ⟨.nil, hv⟩
  | @cons i i' is is' hi _ ih =>
    -- What a finished file includes was loaded and is finished too.
    obtain ⟨decl', hdecl', hmem⟩ := hi.included'
    obtain ⟨found, hfound, -, hcovers⟩ := hfinished _ .refl
    obtain rfl := Option.some.inj (hdecl'.symm.trans hfound)
    obtain ⟨p', hp', hloaded⟩ := hcovers i' hmem
    obtain ⟨q, hq, hqp⟩ := List.mem_map.mp hloaded
    have hloaded' : v'.isLoaded p' = true := Visits.isLoaded_iff.mpr ⟨q, hq, hqp⟩
    have hnext := hfinished.next (hi.twins hx hp').1
    refine .gather_cons (revisit_buildInclude hl hagain hx hi hp' hloaded' hnext hv hstack) ?_
    rintro o u ho ⟨hone, hu⟩
    have hrest := ih hu (hstack.of_building (building_buildInclude hkept ho))
    exact hrest.imp (fun ⟨os, w, hos, hall, hw⟩ => ⟨os, w, hos, hone.append hall, hw⟩) id

theorem revisit_buildDecl {decl : SchemaDecl} (b : Bool) (hx : Twins source source' start x x')
    (hdecl : source x = some decl) (htables : decl.tables = []) (hfinished : Finished r source' v'.loaded x')
    (hv : SameFiles source source' start v v') (hstack : LeadsTo source' start x' v) :
    (buildDecl r l build decl x b).GivesUnless Error.IsTooDeep v fun s w =>
      (∃ d, s.databases = [d] ∧ d.tables = []) ∧ SameFiles source source' start w v' := by
  obtain ⟨decl', hdecl', ⟨head, equipped, hhead', hequipped'⟩, -⟩ := hfinished _ .refl
  obtain ⟨found, hfound, hrespells⟩ := hl.respelling x x' decl' hx.reached hx.reached' hx.same hdecl'
  obtain rfl := Option.some.inj (hdecl.symm.trans hfound)
  obtain ⟨hhead, hequipped⟩ := hrespells.isSound hhead' hequipped'
  have hempty : equipped.tables = [] := (Database.name_addSettings hequipped).2.trans (Database.name_head hhead).2
  have hown : (Database.addDeclaredTables r b decl.tables).Gives equipped () equipped := by
    simp [Database.addDeclaredTables, htables]
  refine buildDecl_givesUnless hhead hequipped hown
    (revisit_gather hl hkept hagain hx hfinished (hrespells.twinIncludes hdecl hdecl') hv hstack) ?_
  rintro included w ⟨hincluded, hw⟩
  have hown' : Schema.databases { databases := [equipped] } = [equipped] := rfl
  obtain ⟨s, e, hmerged, hs, hs'⟩ := hincluded.merge (s := { location := x, referenceOnly := b, databases := [equipped] })
    rfl hown' (gives_forEach_nil.mpr rfl)
  obtain rfl := List.singleton_inj.mp hs'
  have hnames : s.checkQualifiedNames = .ok () := by
    simp [Schema.checkQualifiedNames, Schema.qualifiedNames, hs, hempty, Schema.firstRepeat?]
  exact ⟨s, gives_mergeIncludes.mpr ⟨hmerged, hnames, rfl⟩, ⟨_, hs, hempty⟩, hw⟩

end Again

theorem buildsAgain_below (hl : Respelled l l' source source' start) (depth : Nat) :
    BuildsAgain r source source' start (below r l depth) := by
  induction depth with
  | zero => exact fun _ p _ _ _ _ _ _ _ _ _ _ => .fail ⟨p, rfl⟩
  | succ depth ih =>
    intro decl p p' b v v' hdecl htables hp hfinished hv hstack
    rw [below, buildNested_eq]
    exact revisit_buildDecl hl (fun _ _ _ _ _ _ => building_below) ih b hp hdecl htables hfinished hv hstack

/-! ### Two runs abreast -/

/-- What the second run builds the first one builds too. -/
def BuildsAlike (r : Registry) (source source' : Option Path → Option SchemaDecl) (start : Option Path)
    (build build' : SchemaDecl → Path → Bool → Edit Visits Schema) : Prop :=
  ∀ decl decl' p p' b v v' s' w', source (some p) = some decl → source' (some p') = some decl' →
    Twins source source' start (some p) (some p') → SameFiles source source' start v v' →
    LeadsTo source' start (some p') v → Done r source' start v' → (build' decl' p' b).Gives v' s' w' →
    (build decl p b).GivesUnless Error.IsTooDeep v fun s w =>
      (∃ d, s.databases = [d] ∧ s'.databases = [d]) ∧ SameFiles source source' start w w'

section Abreast
variable {build build' : SchemaDecl → Path → Bool → Edit Visits Schema} (hl : Respelled l l' source source' start)
  (hkept : ∀ decl p b v s w, (build decl p b).Gives v s w → w.building = v.building)
  (hkept' : ∀ decl p b v s w, (build' decl p b).Gives v s w → w.building = v.building)
  (hfinish : Finishes r source' start build')
  (hagain : BuildsAgain r source source' start build)
  (halike : BuildsAlike r source source' start build build')
include hl hkept hkept' hfinish hagain halike

omit hkept hkept' hfinish in
theorem abreast_buildInclude {i i' : IncludeDecl} {o' : Option (Included Schema)}
    (hx : Twins source source' start x x') (hi : TwinIncludes source source' x x' i i')
    (hv : SameFiles source source' start v v') (hstack : LeadsTo source' start x' v) (hdone : Done r source' start v')
    (h : (buildInclude l' build' x' i').Gives v' o' w') :
    (buildInclude l build x i).GivesUnless Error.IsTooDeep v fun o w =>
      SameTables o.toList o'.toList ∧ SameFiles source source' start w w' := by
  obtain ⟨p', hp', hfree', ⟨hloaded', rfl, rfl⟩ | ⟨hnew', decl', s', u', hdecl', hs', rfl, rfl⟩⟩ := gives_buildInclude h
  · have hfinished := hdone.of_loaded hl.respectful' hloaded' hfree'
    exact revisit_buildInclude hl hagain hx hi hp' hloaded' hfinished hv hstack
  · obtain ⟨hinc', p, hp, htwins⟩ := hi.twins hx hp'
    have hfree := hstack.isBuilding_eq_false hl htwins hinc'
    have hfile' := hl.stored'.source_eq hdone.hasStart hfree' hdecl'
    obtain ⟨decl, hdecl, -⟩ := hl.respelling _ _ decl' htwins.reached htwins.reached' htwins.same hfile'
    have hnew : v.isLoaded p = false := by
      cases hloaded : v.isLoaded p with
      | false => rfl
      | true => rw [← hnew', hv.isLoaded hl htwins hloaded]
    rw [hi.respells.referenceOnly] at hs'
    have hbuild := halike decl decl' p p' i.referenceOnly _ _ s' u' hdecl hfile' htwins (hv.visit htwins)
      (hstack.visit htwins hinc') (hdone.visit p') hs'
    refine buildInclude_new hp hfree hnew (hl.stored.loadDecl_eq hstack.hasStart hfree hdecl) hbuild ?_
    rintro s u - ⟨⟨d, hd, hd'⟩, hu⟩
    exact ⟨.both hi.respells.referenceOnly hd hd' .nil, ⟨hu.loaded, hu.reached, hu.reached'⟩⟩

theorem abreast_gather (hx : Twins source source' start x x') {is is' : List IncludeDecl}
    (his : List.Forall₂ (TwinIncludes source source' x x') is is') {included' : List (Included Schema)}
    (hv : SameFiles source source' start v v') (hstack : LeadsTo source' start x' v) (hdone : Done r source' start v')
    (h : (gather (buildInclude l' build' x') is').Gives v' included' w') :
    (gather (buildInclude l build x) is).GivesUnless Error.IsTooDeep v fun included w =>
      SameTables included included' ∧ SameFiles source source' start w w' := by
  induction his generalizing v v' included' with
  | nil =>
    obtain ⟨rfl, rfl⟩ := gives_pure.mp h
    exact .of_gives (gives_pure.mpr ⟨rfl, rfl⟩) ⟨.nil, hv⟩
  | @cons i i' is is' hi _ ih =>
    obtain ⟨o', u', os', ho', hos', rfl⟩ := gives_gather_cons.mp h
    refine .gather_cons (abreast_buildInclude hl hagain halike hx hi hv hstack hdone ho') ?_
    rintro o u ho ⟨hone, hu⟩
    have hdone' := (finish_buildInclude hl.respectful' hl.stored' hkept' hfinish hdone ho').1
    have hrest := ih hu (hstack.of_building (building_buildInclude hkept ho)) hdone' hos'
    exact hrest.imp (fun ⟨os, w, hos, hall, hw⟩ => ⟨os, w, hos, hone.append hall, hw⟩) id

theorem abreast_buildDecl {decl decl' : SchemaDecl} {b : Bool} {s' : Schema} (hx : Twins source source' start x x')
    (hdecl : source x = some decl) (hdecl' : source' x' = some decl') (hv : SameFiles source source' start v v')
    (hstack : LeadsTo source' start x' v) (hdone : Done r source' start v')
    (h : (buildDecl r l' build' decl' x' b).Gives v' s' w') :
    (buildDecl r l build decl x b).GivesUnless Error.IsTooDeep v fun s w =>
      (∃ d, s.databases = [d] ∧ s'.databases = [d]) ∧ SameFiles source source' start w w' := by
  obtain ⟨included', head, equipped, d, hincluded', hhead', hequipped', htables', hmerges'⟩ := merges_of_buildDecl h
  obtain ⟨found, hfound, hrespells⟩ := hl.respelling x x' decl' hx.reached hx.reached' hx.same hdecl'
  obtain rfl := Option.some.inj (hdecl.symm.trans hfound)
  obtain ⟨hhead, hequipped⟩ := hrespells.isSound hhead' hequipped'
  rw [hrespells.rest] at htables'
  have hgather := abreast_gather hl hkept hkept' hfinish hagain halike hx (hrespells.twinIncludes hdecl hdecl') hv hstack
    hdone hincluded'
  refine buildDecl_givesUnless hhead hequipped htables' hgather ?_
  rintro included w ⟨hincluded, hw⟩
  obtain ⟨hmerged', hnames', -⟩ := gives_mergeIncludes.mp hmerges'
  obtain ⟨s, e, hmerged, hs, hs'⟩ := hincluded.merge (s := { location := x, referenceOnly := b, databases := [d] })
    rfl rfl hmerged'
  have hnames : s.checkQualifiedNames = .ok () := by
    rw [← hnames', Schema.checkQualifiedNames, Schema.checkQualifiedNames, Schema.qualifiedNames, hs, ← hs',
      Schema.qualifiedNames]
  exact ⟨s, gives_mergeIncludes.mpr ⟨hmerged, hnames, rfl⟩, ⟨e, hs, hs'⟩, hw⟩

end Abreast

theorem buildsAlike_below (hl : Respelled l l' source source' start) (depth depth' : Nat) :
    BuildsAlike r source source' start (below r l depth) (below r l' depth') := by
  induction depth' generalizing depth with
  | zero => exact fun _ _ _ _ _ _ _ _ _ _ _ _ _ _ _ hfail => absurd hfail not_gives_fail
  | succ depth' ih =>
    intro decl decl' p p' b v v' s' w' hdecl hdecl' hp hv hstack hdone h
    cases depth with
    | zero => exact .fail ⟨p, rfl⟩
    | succ depth =>
      rw [below, buildNested_eq] at h ⊢
      exact abreast_buildDecl hl (fun _ _ _ _ _ _ => building_below) (fun _ _ _ _ _ _ => building_below)
        (finishes_below hl.respectful' hl.stored' depth') (buildsAgain_below hl depth) (ih depth) hp hdecl hdecl' hv
        hstack hdone h

end Runs

end Schemata
