import Mathlib.Data.List.Pairwise
import Schemata.Proofs.Revisits
import Schemata.Proofs.WellBuilt

/-!
# One spelling for each file

A file that is reached under two spellings is built twice. When the includes of some files can be written
in another way so that each file keeps one spelling and building succeeds, building succeeds with the
includes as they are exactly when no file with tables has two spellings, and it ends with the same databases
(`build_respelled_iff`). A table of a file with two spellings is a duplicate of itself.
-/

namespace Schemata

open Change Relation

namespace Schema

variable {r : Registry} {l l' : Library} {start : Option Path} {j j' : Json} {s s' : Schema}

/-! ### Where two runs begin -/

theorem sameFiles_startVisits {source source' : Option Path → Option SchemaDecl} :
    SameFiles source source' start (startVisits start) (startVisits start) := by
  have hreached : ∀ source : Option Path → Option SchemaDecl, ∀ p ∈ (startVisits start).loaded,
      ReflTransGen (Includes source) start (some p) := by
    intro source p hp
    cases start with
    | none => cases hp
    | some q =>
      obtain rfl := List.mem_singleton.mp hp
      exact .refl
  exact ⟨fun _ => .rfl, hreached source, hreached source'⟩

theorem leadsTo_startVisits {source' : Option Path → Option SchemaDecl} :
    LeadsTo source' start start (startVisits start) where
  hasStart := hasStart_startVisits
  through q hq := by
    cases start with
    | none => cases hq
    | some p =>
      obtain rfl := List.mem_singleton.mp hq
      exact ⟨q, rfl, .refl, .refl⟩

/-- Where files with tables have one spelling, building ends with the databases of the other library. -/
theorem build_of_oneSpelling (hl' : l'.IsLexical)
    (hfiles : Respelling (declFrom l start j) (declFrom l' start j') start)
    (honce' : OneSpelling (declFrom l' start j') start fun _ => True)
    (hbuilt : (build r l' start j' ()).result = .ok s')
    (hdepth : ∀ p, (build r l start j ()).result ≠ .error (.load p .tooDeep))
    (honce : OneSpelling (declFrom l start j) start (HasTables (declFrom l start j))) :
    ∃ s, (build r l start j ()).result = .ok s ∧ s.databases = s'.databases := by
  have hrun : Respelled l l' (declFrom l start j) (declFrom l' start j') start :=
    ⟨declFrom_stored, declFrom_stored, hl'.respectful, hfiles, honce, honce',
      acyclic_of_build hl'.respectful_declAt hbuilt⟩
  obtain ⟨decl', w', hdecl', hgives'⟩ := gives_build hbuilt
  obtain ⟨decl, hstart, -⟩ := hfiles start start decl' .refl .refl rfl (declFrom_start hdecl')
  have hdecl : SchemaDecl.record.shape j = .ok decl := by
    rw [declFrom, if_pos rfl] at hstart
    cases hshape : SchemaDecl.record.shape j with
    | ok found =>
      rw [hshape] at hstart
      exact congrArg Except.ok (Option.some.inj hstart)
    | error e =>
      rw [hshape] at hstart
      cases hstart
  rw [buildNested_eq] at hgives'
  have hnested := abreast_buildDecl hrun (fun _ _ _ _ _ _ => building_below) (fun _ _ _ _ _ _ => building_below)
    (finishes_below hl'.respectful declFrom_stored (l'.depth + 1)) (buildsAgain_below hrun (l.depth + 1))
    (buildsAlike_below hrun (l.depth + 1) (l'.depth + 1)) ⟨.refl, .refl, rfl⟩ hstart (declFrom_start hdecl')
    sameFiles_startVisits leadsTo_startVisits done_startVisits hgives'
  rw [← buildNested_eq] at hnested
  rcases hnested with ⟨s, w, hs, ⟨d, hd, hd'⟩, -⟩ | ⟨e, he, p, rfl⟩
  · exact ⟨s, (result_build hdecl).trans hs.1, hd.trans hd'.symm⟩
  · exact absurd ((result_build hdecl).trans he) (hdepth p)

/-- Where building succeeds, the files that it visits have no table names in common. -/
theorem disjoint_of_build (h : (build r l start j ()).result = .ok s) :
    ∃ decl vs, SchemaDecl.record.shape j = .ok decl ∧ FirstVisits l start decl vs ∧
      ∀ u ∈ vs, ∀ w ∈ vs, u ≠ w → u.decl.tableNames.Disjoint w.decl.tableNames := by
  obtain ⟨decl, _, _, hdecl, hfirstVisits, hdatabase, hname, hmarks⟩ := visits_of_build h
  obtain ⟨vs, d, hvisits, hd, -, hnames⟩ := InTourOrder.of_marks hfirstVisits hdatabase hname hmarks
  have hnodup : d.tableNames.Nodup := ((wellBuilt_build h).each d (hd ▸ List.mem_singleton_self d)).tables
  rw [hnames] at hnodup
  have hdisjoint := (List.nodup_flatMap.mp (List.nodup_append'.mp hnodup).2.1).2
  have hsymm : Std.Symm (Function.onFun List.Disjoint fun v : Visited => v.decl.tableNames) :=
    ⟨fun _ _ h _ hb ha => h ha hb⟩
  exact ⟨decl, vs, hdecl, hvisits, fun u hu w hw huw => hdisjoint.forall hu hw huw⟩

/-- A file with tables that has two spellings makes building fail. -/
theorem oneSpelling_of_build (hl : l.IsLexical) (hl' : l'.IsLexical)
    (hfiles : Respelling (declFrom l start j) (declFrom l' start j') start)
    (honce' : OneSpelling (declFrom l' start j') start fun _ => True)
    (hbuilt : (build r l' start j' ()).result = .ok s') (h : (build r l start j ()).result = .ok s) :
    OneSpelling (declFrom l start j) start (HasTables (declFrom l start j)) := by
  obtain ⟨loaded, hfinished⟩ := finished_of_build hl'.respectful_declAt hbuilt
  have hfirst : ∀ p q : Path, start.map Path.components = some p.components →
      ReflTransGen (Includes (declFrom l start j)) start (some q) → q.destination = p.destination →
      q.components = p.components := by
    intro p q hp hq hsame
    obtain ⟨p₀, hstart, hp₀⟩ := Option.map_eq_some_iff.mp hp
    rw [← hp₀]
    exact hfiles.start_once hfinished honce' (acyclic_of_build hl'.respectful_declAt hbuilt _ .refl) hstart hq
      (hsame.trans (Path.destination_congr hp₀.symm))
  obtain ⟨decl, vs, hdecl, hvisits, hdisjoint⟩ := disjoint_of_build h
  rintro p q hp hq ⟨found, hfound, htables⟩ hsame
  rcases hvisits.visited hl.respectful hdecl hp with hstart | ⟨u, hu, hup⟩
  · exact (hfirst p q hstart hq hsame.symm).symm
  rcases hvisits.visited hl.respectful hdecl hq with hstart | ⟨w, hw, hwq⟩
  · exact hfirst q p hstart hp hsame
  by_contra hne
  -- Two visits to one file would bring its tables into the database twice.
  have hsameDecl : w.decl = u.decl := by
    have hload := declAt_congr (hl u.path w.path (by rw [Path.destination_congr hup, hsame, Path.destination_congr hwq]))
    rw [declAt, Option.bind_some, (hvisits.reached u hu).loaded, declAt, Option.bind_some,
      (hvisits.reached w hw).loaded] at hload
    exact (Option.some.inj hload).symm
  have hu' : found = u.decl := by
    rw [hl.respectful p u.path hup.symm, hvisits.source_eq hu] at hfound
    exact (Option.some.inj hfound).symm
  obtain ⟨t, ht⟩ := List.exists_mem_of_ne_nil _ htables
  have huw : u ≠ w := fun heq => hne (by rw [← hup, ← hwq, heq])
  have htable : t.name ∈ u.decl.tableNames := List.mem_map_of_mem (hu' ▸ ht)
  have htable' : t.name ∈ w.decl.tableNames := by rwa [hsameDecl]
  exact hdisjoint u hu w hw huw htable htable'

/-- Building works with two spellings of files exactly when the files have no tables. The depth of the library must
    leave room for the files on the way (`hdepth`), as some are built anew for another spelling. -/
theorem build_respelled_iff (r : Registry) {l l' : Library} {start : Option Path} {j j' : Json} {s' : Schema}
    (hl : l.IsLexical) (hl' : l'.IsLexical)
    (hfiles : Respelling (declFrom l start j) (declFrom l' start j') start)
    (honce : OneSpelling (declFrom l' start j') start fun _ => True)
    (hbuilt : (build r l' start j' ()).result = .ok s')
    (hdepth : ∀ p, (build r l start j ()).result ≠ .error (.load p .tooDeep)) :
    ((∃ s, (build r l start j ()).result = .ok s) ↔
        OneSpelling (declFrom l start j) start (HasTables (declFrom l start j))) ∧
      ∀ s, (build r l start j ()).result = .ok s → s.databases = s'.databases := by
  have honly : ∀ s, (build r l start j ()).result = .ok s →
      OneSpelling (declFrom l start j) start (HasTables (declFrom l start j)) :=
    fun s h => oneSpelling_of_build hl hl' hfiles honce hbuilt h
  refine ⟨⟨fun ⟨s, h⟩ => honly s h, fun hone => ?_⟩, fun s h => ?_⟩
  · obtain ⟨s, hs, -⟩ := build_of_oneSpelling hl' hfiles honce hbuilt hdepth hone
    exact ⟨s, hs⟩
  · obtain ⟨t, ht, hsame⟩ := build_of_oneSpelling hl' hfiles honce hbuilt hdepth (honly s h)
    obtain rfl := Except.ok.inj (h.symm.trans ht)
    exact hsame

end Schema

/-! ### Libraries that know where paths lead -/

namespace Library

/-- Files at hand that are found by where a path leads. -/
def ofDestinations (files : List (Path × Json)) : Library where
  load p :=
    match files.find? (·.1.destination == p.destination) with
    | some f => .ok f.2
    | none => .error .unknownFile
  depth := files.length

variable {files files' : List (Path × Json)} {x x' : Option Path} {decl decl' : SchemaDecl}

theorem isLexical_ofDestinations (files : List (Path × Json)) : (ofDestinations files).IsLexical := by
  intro p q h
  simp only [ofDestinations, h]

theorem declAt_ofDestinations (p : Path) :
    declAt (ofDestinations files) (some p) =
      (files.find? (·.1.destination == p.destination)).bind fun f => (SchemaDecl.record.shape f.2).toOption := by
  rw [declAt, Option.bind_some]
  cases hfile : files.find? (·.1.destination == p.destination) with
  | some f => exact toOption_loadDecl_of_ok (by simp only [ofDestinations, hfile])
  | none => exact toOption_loadDecl_of_error (e := .unknownFile) (by simp only [ofDestinations, hfile])

theorem mem_of_declAt (h : declAt (ofDestinations files) x = some decl) :
    ∃ f ∈ files, (SchemaDecl.record.shape f.2).toOption = some decl := by
  cases x with
  | none => cases h
  | some p =>
    rw [declAt_ofDestinations, Option.bind_eq_some_iff] at h
    obtain ⟨f, hf, hdecl⟩ := h
    exact ⟨f, List.mem_of_find?_eq_some hf, hdecl⟩

/-- Files at the same places that differ at most in the spellings of filenames. -/
theorem renames_ofDestinations
    (h : List.Forall₂ (fun f f' => f'.1 = f.1 ∧ ∀ decl', (SchemaDecl.record.shape f'.2).toOption = some decl' →
      ∃ decl, (SchemaDecl.record.shape f.2).toOption = some decl ∧ decl.Renames decl') files files')
    (hx : x.map Path.destination = x'.map Path.destination)
    (hdecl' : declAt (ofDestinations files') x' = some decl') :
    ∃ decl, declAt (ofDestinations files) x = some decl ∧ decl.Renames decl' := by
  cases x' with
  | none => cases hdecl'
  | some p' =>
    obtain ⟨p, rfl, hp⟩ := Option.map_eq_some_iff.mp hx
    rw [declAt_ofDestinations] at hdecl'
    rw [declAt_ofDestinations, hp]
    induction h with
    | nil => cases hdecl'
    | @cons f f' files files' hf _ ih =>
      rw [List.find?_cons] at hdecl' ⊢
      rw [hf.1] at hdecl'
      split at hdecl'
      · exact hf.2 decl' hdecl'
      · exact ih hdecl'

end Library

namespace Schema

def bazaarTree (goods : String) : Json :=
  treeOf "main" ["shop"] [("shop/orders.json", false), (goods, false)]

/-- The goods are included beside the first file, and from the orders in the directory of the shop. -/
def bazaar (goods : String) (stocked : Bool) : Library :=
  .ofDestinations
    [(⟨"main.json"⟩, bazaarTree goods),
      (⟨"shop/orders.json"⟩, treeOf "orders" ["order"] [("../goods.json", false)]),
      (⟨"goods.json"⟩, treeOf "goods" (if stocked then ["article"] else []) [])]

/-- What is in the files of the bazaar. -/
def bazaarSource (goods : String) (stocked : Bool) : Option Path → Option SchemaDecl :=
  declFrom (bazaar goods stocked) (some ⟨"main.json"⟩) (bazaarTree goods)

def bazaarDecl (goods : String) : SchemaDecl where
  name := "main"
  tables := [{ name := "shop" }]
  includes := [{ filename := "shop/orders.json", referenceOnly := false }, { filename := goods, referenceOnly := false }]

def ordersDecl : SchemaDecl where
  name := "orders"
  tables := [{ name := "order" }]
  includes := [{ filename := "../goods.json", referenceOnly := false }]

def goodsDecl (stocked : Bool) : SchemaDecl where
  name := "goods"
  tables := if stocked then [{ name := "article" }] else []

theorem shape_bazaarTree (goods : String) : SchemaDecl.record.shape (bazaarTree goods) = .ok (bazaarDecl goods) := rfl

theorem shape_orders : SchemaDecl.record.shape (treeOf "orders" ["order"] [("../goods.json", false)]) = .ok ordersDecl :=
  rfl

theorem shape_goods (stocked : Bool) :
    SchemaDecl.record.shape (treeOf "goods" (if stocked then ["article"] else []) []) = .ok (goodsDecl stocked) := by
  cases stocked <;> rfl

theorem isLexical_bazaar (goods : String) (stocked : Bool) : (bazaar goods stocked).IsLexical :=
  Library.isLexical_ofDestinations _

theorem bazaarSource_eq (goods : String) (stocked : Bool) : bazaarSource goods stocked = declAt (bazaar goods stocked) :=
  declFrom_of_load (isLexical_bazaar goods stocked).respectful_declAt (by simp [bazaar, Library.ofDestinations])

theorem names_bazaar {goods : String} {stocked : Bool} (hgoods : (⟨goods⟩ : Path).endsInName = true) (x : Option Path)
    (decl : SchemaDecl) (h : bazaarSource goods stocked x = some decl) (i : IncludeDecl) (hi : i ∈ decl.includes) :
    (⟨i.filename⟩ : Path).endsInName = true := by
  rw [bazaarSource_eq] at h
  obtain ⟨f, hf, hdecl⟩ := Library.mem_of_declAt h
  simp only [List.mem_cons, List.not_mem_nil, or_false] at hf
  rcases hf with rfl | rfl | rfl
  · rw [shape_bazaarTree] at hdecl
    cases hdecl
    simp only [bazaarDecl, List.mem_cons, List.not_mem_nil, or_false] at hi
    rcases hi with rfl | rfl
    · decide
    · exact hgoods
  · rw [shape_orders] at hdecl
    cases hdecl
    simp only [ordersDecl, List.mem_cons, List.not_mem_nil, or_false] at hi
    subst hi
    decide
  · rw [shape_goods] at hdecl
    cases hdecl
    cases hi

theorem respelling_bazaar {goods goods' : String} (hgoods : (⟨goods⟩ : Path).endsInName = true)
    (hgoods' : (⟨goods'⟩ : Path).endsInName = true)
    (hsame : (⟨goods⟩ : Path).destination = (⟨goods'⟩ : Path).destination) (stocked : Bool) :
    Respelling (bazaarSource goods stocked) (bazaarSource goods' stocked) (some ⟨"main.json"⟩) := by
  refine .of_filenames ?_ (names_bazaar hgoods) (names_bazaar hgoods') fun x x' decl' hx hdecl' => ?_
  · rintro p hp
    cases hp
    decide
  rw [bazaarSource_eq, bazaar] at hdecl' ⊢
  refine Library.renames_ofDestinations ?_ hx hdecl'
  refine .cons ⟨rfl, ?_⟩ (.cons ⟨rfl, ?_⟩ (.cons ⟨rfl, ?_⟩ .nil))
  · intro decl' hdecl'
    rw [shape_bazaarTree] at hdecl' ⊢
    cases hdecl'
    exact ⟨_, rfl, rfl, .cons ⟨rfl, rfl⟩ (.cons ⟨rfl, hsame⟩ .nil)⟩
  · intro decl' hdecl'
    rw [shape_orders] at hdecl' ⊢
    cases hdecl'
    exact ⟨_, rfl, rfl, .cons ⟨rfl, rfl⟩ .nil⟩
  · intro decl' hdecl'
    rw [shape_goods] at hdecl' ⊢
    cases hdecl'
    exact ⟨_, rfl, rfl, .nil⟩

theorem bazaar_covers (stocked : Bool) (x : Option Path)
    (hx : x = some ⟨"main.json"⟩ ∨
      x ∈ [(⟨"main.json"⟩ : Path), ⟨"shop/orders.json"⟩, ⟨"shop/../goods.json"⟩].map some) (decl : SchemaDecl)
    (h : bazaarSource "shop/../goods.json" stocked x = some decl) :
    Covers [⟨"main.json"⟩, ⟨"shop/orders.json"⟩, ⟨"shop/../goods.json"⟩] x decl.includes := by
  rw [bazaarSource_eq, bazaar] at h
  simp only [List.map_cons, List.map_nil, List.mem_cons, List.not_mem_nil, or_false, or_self_left] at hx
  rcases hx with rfl | rfl | rfl
  · rw [Library.declAt_ofDestinations, List.find?_cons_of_pos (by decide), Option.bind_some, shape_bazaarTree] at h
    cases h
    exact List.forall_mem_cons.mpr ⟨⟨_, rfl, by decide⟩, List.forall_mem_singleton.mpr ⟨_, rfl, by decide⟩⟩
  · rw [Library.declAt_ofDestinations, List.find?_cons_of_neg (by decide), List.find?_cons_of_pos (by decide),
      Option.bind_some, shape_orders] at h
    cases h
    exact List.forall_mem_singleton.mpr ⟨_, rfl, by decide⟩
  · rw [Library.declAt_ofDestinations, List.find?_cons_of_neg (by decide), List.find?_cons_of_neg (by decide),
      List.find?_cons_of_pos (by decide +revert), Option.bind_some, shape_goods] at h
    cases h
    exact fun i hi => absurd hi List.not_mem_nil

theorem oneSpelling_bazaar (stocked : Bool) (P : Path → Prop) :
    OneSpelling (bazaarSource "shop/../goods.json" stocked) (some ⟨"main.json"⟩) P := by
  refine .of_covers (isLexical_bazaar _ _).respectful ?_ (bazaar_covers stocked) (by decide) P
  rintro p hp
  cases hp
  decide

/-- The goods have two spellings but no tables, so that the bazaar is built as it is with one spelling. -/
theorem build_respelled_iff_bazaar :
    asked (build {} (bazaar "goods.json" false) (some ⟨"main.json"⟩) (bazaarTree "goods.json") ()).log =
        [⟨"shop/orders.json"⟩, ⟨"shop/../goods.json"⟩, ⟨"goods.json"⟩] ∧
      asked (build {} (bazaar "shop/../goods.json" false) (some ⟨"main.json"⟩) (bazaarTree "shop/../goods.json") ()).log =
        [⟨"shop/orders.json"⟩, ⟨"shop/../goods.json"⟩] ∧
      OneSpelling (bazaarSource "goods.json" false) (some ⟨"main.json"⟩) (HasTables (bazaarSource "goods.json" false)) ∧
      ∃ s s', (build {} (bazaar "goods.json" false) (some ⟨"main.json"⟩) (bazaarTree "goods.json") ()).result = .ok s ∧
        (build {} (bazaar "shop/../goods.json" false) (some ⟨"main.json"⟩) (bazaarTree "shop/../goods.json") ()).result =
          .ok s' ∧
        s.databases = s'.databases ∧ s'.databases.map (·.tableNames) = [["shop", "order"]] := by
  have hok : (build {} (bazaar "goods.json" false) (some ⟨"main.json"⟩)
      (bazaarTree "goods.json") ()).result.toOption.isSome = true := by decide +kernel
  have hnames : (build {} (bazaar "shop/../goods.json" false) (some ⟨"main.json"⟩)
      (bazaarTree "shop/../goods.json") ()).result.toOption.map (·.databases.map (·.tableNames)) =
        some [["shop", "order"]] := by decide +kernel
  cases hs : (build {} (bazaar "goods.json" false) (some ⟨"main.json"⟩) (bazaarTree "goods.json") ()).result with
  | error e =>
    rw [hs] at hok
    cases hok
  | ok s =>
    cases hs' : (build {} (bazaar "shop/../goods.json" false) (some ⟨"main.json"⟩)
        (bazaarTree "shop/../goods.json") ()).result with
    | error e =>
      rw [hs'] at hnames
      cases hnames
    | ok s' =>
      rw [hs'] at hnames
      obtain ⟨hiff, hsame⟩ := build_respelled_iff {} (isLexical_bazaar "goods.json" false)
        (isLexical_bazaar "shop/../goods.json" false) (respelling_bazaar (by decide) (by decide) (by decide) false)
        (oneSpelling_bazaar false _) hs' fun p hp => nomatch hs.symm.trans hp
      exact ⟨by decide +kernel, by decide +kernel, hiff.mp ⟨s, hs⟩, s, s', rfl, rfl, hsame s hs, Option.some.inj hnames⟩

/-- With a table, goods that have two spellings are merged twice, and building fails, which it does not with one
    spelling. -/
theorem article_comes_twice :
    (bazaar "goods.json" true).IsLexical ∧ (bazaar "shop/../goods.json" true).IsLexical ∧
      Respelling (bazaarSource "goods.json" true) (bazaarSource "shop/../goods.json" true) (some ⟨"main.json"⟩) ∧
      OneSpelling (bazaarSource "shop/../goods.json" true) (some ⟨"main.json"⟩) (fun _ => True) ∧
      (build {} (bazaar "shop/../goods.json" true) (some ⟨"main.json"⟩)
          (bazaarTree "shop/../goods.json") ()).result.toOption.map (·.databases.map (·.tableNames)) =
        some [["shop", "order", "article"]] ∧
      (build {} (bazaar "goods.json" true) (some ⟨"main.json"⟩) (bazaarTree "goods.json") ()).result =
        .error (.constraint (.duplicateTable "article" "main")) := by
  refine ⟨isLexical_bazaar _ _, isLexical_bazaar _ _, respelling_bazaar (by decide) (by decide) (by decide) true,
    oneSpelling_bazaar true _, by decide +kernel, ?_⟩
  rfl

end Schema

end Schemata
