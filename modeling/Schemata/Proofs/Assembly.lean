import Schemata.Proofs.Acyclic
import Schemata.Proofs.Arrivals
import Schemata.Proofs.Declared
import Schemata.Proofs.Tour

/-!
# The tables of a schema that is built

A schema that is built has one database. Its tables are those of the first file, followed by those of
every included file in the order of the first visits; a table is marked as one that may only be referred
to when its own declaration says so or an include does through which its file was reached first.
-/

namespace Schemata

open Change

/-! ### Names and marks -/

/-- The marks of tables that come through an include, which marks all of them when `referenceOnly` is set. -/
def under (referenceOnly : Bool) (marks : List (String × Bool)) : List (String × Bool) :=
  marks.map fun m => (m.1, m.2 || referenceOnly)

@[simp] theorem under_false (marks : List (String × Bool)) : under false marks = marks := by
  simp [under]

@[simp] theorem under_append (b : Bool) (ms ns : List (String × Bool)) :
    under b (ms ++ ns) = under b ms ++ under b ns :=
  List.map_append

theorem under_under (b c : Bool) (ms : List (String × Bool)) : under b (under c ms) = under (b || c) ms := by
  simp [under, Bool.or_comm]

theorem under_self_or (b c : Bool) (h : c = true → b = true) (ms : List (String × Bool)) :
    under b (under c ms) = under b ms := by
  rw [under_under]
  cases c with
  | false => rw [Bool.or_false]
  | true => rw [h rfl, Bool.or_true]

def SchemaDecl.tableNames (decl : SchemaDecl) : List String :=
  decl.tables.map (·.name)

/-- The names of the declared tables, and which of them are declared for reference only. -/
def SchemaDecl.marks (decl : SchemaDecl) : List (String × Bool) :=
  decl.tables.map fun t => (t.name, t.referenceOnly)

/-- The tables of a visited file with the marks that they get from their declarations and from the includes on the
    way to the file. -/
def Visited.marks (u : Visited) : List (String × Bool) :=
  u.decl.tables.map fun t => (t.name, t.referenceOnly || u.way.any (·.referenceOnly))

theorem Visited.marks_eq (u : Visited) : u.marks = under (u.way.any (·.referenceOnly)) u.decl.marks := by
  simp [Visited.marks, under, SchemaDecl.marks]

/-- The marks that the tables of an included schema bring along. -/
def Included.marks (i : Included Schema) : List (String × Bool) :=
  under i.referenceOnly (i.schema.databases.flatMap (·.marks))

/-! ### Merging into the only database -/

namespace Schema

variable {d : Database} {ds : List Database} {s t : Schema}

theorem gives_addTablesAt_only {ts : List Table} (h : (addTablesAt 0 ts).Gives [d] () ds) : ds = [d.withTables ts] :=
  ((gives_addTablesAt rfl).mp h).2

/-- The only database is where everything is merged, whatever the names are. -/
theorem mergeTarget?_only (name : String) : mergeTarget? [d] name = some 0 := by
  unfold mergeTarget?
  cases h : (d.name == name) <;> simp [List.findIdx?_cons, h]

theorem gives_mergeDatabase_only {source : Database} {referenceOnly : Bool}
    (h : (mergeDatabase source referenceOnly).Gives [d] () ds) :
    ∃ e, ds = [e] ∧ e.name = d.name ∧ e.marks = d.marks ++ under referenceOnly source.marks := by
  simp only [mergeDatabase, gives_bind, gives_get] at h
  obtain ⟨_, _, ⟨rfl, rfl⟩, h⟩ := h
  rw [mergeTarget?_only] at h
  refine ⟨_, gives_addTablesAt_only h, rfl, ?_⟩
  cases referenceOnly <;> simp [Database.marks, under, Table.mark, Function.comp_def]

theorem gives_addInclude_only {i : Included Schema} {source : Database} (hs : s.databases = [d])
    (hi : i.schema.databases = [source]) (h : (addInclude i).Gives s () t) :
    ∃ e, t.databases = [e] ∧ e.name = d.name ∧ e.marks = d.marks ++ i.marks := by
  simp only [addInclude, gives_bind, gives_within, gives_report, gives_modify] at h
  obtain ⟨⟨⟩, _, ⟨ds, hmerged, rfl⟩, -, _, rfl, rfl⟩ := h
  rw [hs, hi] at hmerged
  obtain ⟨es, hsource, hnil⟩ := gives_forEach_cons.mp hmerged
  obtain rfl := gives_forEach_nil.mp hnil
  obtain ⟨e, rfl, hname, hmarks⟩ := gives_mergeDatabase_only hsource
  refine ⟨e, rfl, hname, ?_⟩
  rw [hmarks, Included.marks, hi]
  simp

theorem gives_addIncludes_only {included : List (Included Schema)} (hs : s.databases = [d])
    (hincluded : ∀ i ∈ included, ∃ source, i.schema.databases = [source])
    (h : (forEach addInclude included).Gives s () t) :
    ∃ e, t.databases = [e] ∧ e.name = d.name ∧ e.marks = d.marks ++ included.flatMap Included.marks := by
  induction included generalizing s d with
  | nil =>
    obtain rfl := gives_forEach_nil.mp h
    exact ⟨d, hs, rfl, by simp⟩
  | cons i included ih =>
    obtain ⟨u, hi, hrest⟩ := gives_forEach_cons.mp h
    obtain ⟨source, hsource⟩ := hincluded i List.mem_cons_self
    obtain ⟨e, he, hname, hmarks⟩ := gives_addInclude_only hs hsource hi
    obtain ⟨f, hf, hname', hmarks'⟩ := ih he (fun j hj => hincluded j (List.mem_cons_of_mem _ hj)) hrest
    refine ⟨f, hf, hname'.trans hname, ?_⟩
    rw [hmarks', hmarks, List.flatMap_cons, List.append_assoc]

end Schema

/-! ### Building along a tour -/

/-- From the declaration of the file `x` a schema of one database was built. Its tables are those of the files on a
    tour, with the marks that they get on their ways; the tour visits what is loaded from `v` to `w`. -/
def Assembled (l : Library) (v w : Visits) (x : Option Path) (way : List IncludeDecl) (decl : SchemaDecl) (s : Schema) :
    Prop :=
  ∃ vs d, Tour l v.loaded x way decl.includes vs ∧ w.loaded = Tour.after v.loaded vs ∧ s.databases = [d] ∧
    d.name = decl.name ∧
    under (way.any (·.referenceOnly)) d.marks =
      under (way.any (·.referenceOnly)) decl.marks ++ vs.flatMap Visited.marks

section Build
variable {r : Registry} {l : Library} {build : SchemaDecl → Path → Bool → Edit Visits Schema}
  (hbuild : ∀ decl p b way v s w, (b = true → way.any (·.referenceOnly) = true) → (build decl p b).Gives v s w →
    Assembled l v w (some p) way decl s)
include hbuild

theorem tour_of_gather {x : Option Path} (way : List IncludeDecl) {is : List IncludeDecl} {v w : Visits}
    {included : List (Included Schema)} (h : (gather (buildInclude l build x) is).Gives v included w) :
    ∃ vs, Tour l v.loaded x way is vs ∧ w.loaded = Tour.after v.loaded vs ∧
      (∀ i ∈ included, ∃ source, i.schema.databases = [source]) ∧
      under (way.any (·.referenceOnly)) (included.flatMap Included.marks) = vs.flatMap Visited.marks := by
  induction is generalizing v included with
  | nil =>
    obtain ⟨rfl, rfl⟩ := gives_pure.mp h
    exact ⟨[], .nil, rfl, fun i hi => absurd hi List.not_mem_nil, rfl⟩
  | cons i is ih =>
    obtain ⟨one, u, later, hi, his, rfl⟩ := gives_gather_cons.mp h
    obtain ⟨vs, htour, hloaded, hlater, hmarks⟩ := ih his
    obtain ⟨p, hp, -, ⟨hold, rfl, rfl⟩ | ⟨hnew, decl, schema, u, hdecl, hschema, rfl, rfl⟩⟩ := gives_buildInclude hi
    · have hmem : p.components ∈ u.loaded.map Path.components := by
        by_contra hnot
        rw [Visits.isLoaded_eq_false.mpr hnot] at hold
        cases hold
      exact ⟨vs, .again hp hmem htour, hloaded, hlater, hmarks⟩
    · have hway : i.referenceOnly = true → (way ++ [i]).any (·.referenceOnly) = true := fun hi => by simp [hi]
      obtain ⟨us, d, hbelow, hu, hd, -, hown⟩ := hbuild decl p _ (way ++ [i]) _ _ _ hway hschema
      have hleave : u.leave.loaded = Tour.after (p :: v.loaded) us := hu
      rw [hleave] at htour hloaded
      refine ⟨⟨p, decl, way ++ [i]⟩ :: us ++ vs, .visit hp (Visits.isLoaded_eq_false.mp hnew) hdecl hbelow htour, ?_,
        ?_, ?_⟩
      · rw [Tour.after_visit, hloaded]
      · intro j hj
        rcases List.mem_cons.mp hj with rfl | hj
        · exact ⟨d, hd⟩
        · exact hlater j hj
      · -- What the include marks and what the way to it marks is what the longer way marks.
        have hincluded : under (way.any (·.referenceOnly)) (Included.marks ⟨p, i.referenceOnly, schema⟩) =
            under ((way ++ [i]).any (·.referenceOnly)) d.marks := by
          simp [Included.marks, hd, under_under]
        have hvisited : under ((way ++ [i]).any (·.referenceOnly)) decl.marks = Visited.marks ⟨p, decl, way ++ [i]⟩ :=
          (Visited.marks_eq ⟨p, decl, way ++ [i]⟩).symm
        rw [Option.toList_some, List.singleton_append, List.flatMap_cons, under_append, hmarks, hincluded, hown,
          hvisited, List.flatMap_append, List.flatMap_cons]

theorem assembled_buildDecl {x : Option Path} {way : List IncludeDecl} {decl : SchemaDecl} {b : Bool} {v w : Visits}
    {s : Schema} (hway : b = true → way.any (·.referenceOnly) = true) (h : (buildDecl r l build decl x b).Gives v s w) :
    Assembled l v w x way decl s := by
  obtain ⟨included, head, equipped, d, hincluded, hhead, hequipped, htables, hmerged⟩ := gives_buildDecl h
  obtain ⟨vs, htour, hloaded, hsources, hmarks⟩ := tour_of_gather hbuild way hincluded
  obtain ⟨e, he, hname, hall⟩ := Schema.gives_addIncludes_only rfl hsources hmerged
  obtain ⟨hheadname, hheadtables⟩ := Database.name_head hhead
  obtain ⟨hequippedname, hequippedtables⟩ := Database.name_addSettings hequipped
  obtain ⟨hdname, hown⟩ := Database.marks_addDeclaredTables htables
  refine ⟨vs, e, htour, hloaded, he, ?_, ?_⟩
  · rw [hname, hdname, hequippedname, hheadname]
  · have hempty : equipped.marks = [] := by rw [Database.marks, hequippedtables, hheadtables, List.map_nil]
    have hdecl : decl.tables.map (fun t => (t.name, t.referenceOnly || b)) = under b decl.marks := by
      simp [under, SchemaDecl.marks]
    rw [hall, hown, hempty, List.nil_append, hdecl, under_append, hmarks, under_self_or _ _ hway]

end Build

section Runs
variable {r : Registry} {l : Library}

theorem assembled_buildNested {depth : Nat} {x : Option Path} {way : List IncludeDecl} {decl : SchemaDecl} {b : Bool}
    {v w : Visits} {s : Schema} (hway : b = true → way.any (·.referenceOnly) = true)
    (h : (buildNested r l depth decl x b).Gives v s w) : Assembled l v w x way decl s := by
  induction depth generalizing x way decl b v w s with
  | zero => exact assembled_buildDecl (fun _ _ _ _ _ _ _ _ hfail => absurd hfail not_gives_fail) hway h
  | succ depth ih => exact assembled_buildDecl (fun _ _ _ _ _ _ _ hway hs => ih hway hs) hway h

/-! ### Whole runs -/

namespace Schema

theorem visits_of_build {start : Option Path} {j : Json} {s : Schema} (h : (build r l start j ()).result = .ok s) :
    ∃ decl vs d, SchemaDecl.record.shape j = .ok decl ∧ FirstVisits l start decl vs ∧ s.databases = [d] ∧
      d.name = decl.name ∧ d.marks = decl.marks ++ vs.flatMap Visited.marks := by
  obtain ⟨decl, w, hdecl, hgives⟩ := gives_build h
  have hassembled : Assembled l (startVisits start) w start [] decl s :=
    assembled_buildNested (fun hb => absurd hb Bool.false_ne_true) hgives
  obtain ⟨vs, d, htour, -, hd, hname, hmarks⟩ := hassembled
  have hstart : (startVisits start).loaded = start.toList := by cases start <;> rfl
  rw [hstart] at htour
  exact ⟨decl, vs, d, hdecl, htour.firstVisits, hd, hname, by simpa using hmarks⟩

theorem visits_of_load {p : Path} {s : Schema} (h : (load r l p ()).result = .ok s) :
    ∃ decl vs d, loadDecl l p = .ok decl ∧ FirstVisits l (some p) decl vs ∧ s.databases = [d] ∧
      d.name = decl.name ∧ d.marks = decl.marks ++ vs.flatMap Visited.marks := by
  cases hj : l.load p with
  | error e =>
    rw [load_of_error hj] at h
    cases h
  | ok j =>
    rw [load_of_ok hj] at h
    obtain ⟨decl, vs, d, hdecl, hrest⟩ := visits_of_build h
    refine ⟨decl, vs, d, ?_, hrest⟩
    simp only [loadDecl, hj, hdecl]
    rfl

/-- A schema has one database, named as its declaration says, whose tables are the declared ones followed by those
    of the included files in the order of the first visits. -/
def InTourOrder (l : Library) (start : Option Path) (decl : SchemaDecl) (s : Schema) : Prop :=
  ∃ vs d, FirstVisits l start decl vs ∧ s.databases = [d] ∧ d.name = decl.name ∧
    d.tableNames = decl.tableNames ++ vs.flatMap (·.decl.tableNames)

theorem InTourOrder.of_marks {start : Option Path} {decl : SchemaDecl} {s : Schema} {vs : List Visited} {d : Database}
    (hvisits : FirstVisits l start decl vs) (hd : s.databases = [d]) (hname : d.name = decl.name)
    (hmarks : d.marks = decl.marks ++ vs.flatMap Visited.marks) : InTourOrder l start decl s := by
  refine ⟨vs, d, hvisits, hd, hname, ?_⟩
  have hfirst := congrArg (List.map Prod.fst) hmarks
  simpa [Database.marks, Database.tableNames, Table.mark, SchemaDecl.marks, SchemaDecl.tableNames, Visited.marks,
    List.map_flatMap, Function.comp_def] using hfirst

/-- Building loses, repeats and reorders no table. -/
theorem tables_in_tour_order (r : Registry) (l : Library) :
    (∀ start j s, (build r l start j ()).result = .ok s →
      ∃ decl, SchemaDecl.record.shape j = .ok decl ∧ InTourOrder l start decl s) ∧
      ∀ p s, (load r l p ()).result = .ok s → ∃ decl, loadDecl l p = .ok decl ∧ InTourOrder l (some p) decl s := by
  constructor
  · intro start j s h
    obtain ⟨decl, vs, d, hdecl, hvisits, hd, hname, hmarks⟩ := visits_of_build h
    exact ⟨decl, hdecl, .of_marks hvisits hd hname hmarks⟩
  · intro p s h
    obtain ⟨decl, vs, d, hdecl, hvisits, hd, hname, hmarks⟩ := visits_of_load h
    exact ⟨decl, hdecl, .of_marks hvisits hd hname hmarks⟩

def treeOf (name : String) (tables : List String) (includes : List (String × Bool)) : Json :=
  .obj [("name", .str name), ("tables", .arr (tables.map fun t => .obj [("name", .str t)])),
    ("external-schemas", .arr (includes.map fun i => .obj [("filename", .str i.1), ("referenceOnly", .bool i.2)]))]

/-- Two files that include the same third one, where one of the two may only be referred to. -/
def market : List (Path × Json) :=
  [(⟨"shop/main.json"⟩, treeOf "main" ["shop"] [("orders.json", false), ("stock.json", true)]),
    (⟨"shop/orders.json"⟩, treeOf "orders" ["order", "line"] [("goods.json", false)]),
    (⟨"shop/stock.json"⟩, treeOf "stock" ["shelf"] [("./goods.json", false), ("vault.json", false)]),
    (⟨"shop/goods.json"⟩, treeOf "goods" ["article"] []),
    (⟨"shop/vault.json"⟩, treeOf "vault" ["coin"] [])]

theorem tables_in_tour_order_market :
    ∃ decl s, (load {} (.ofFiles market) ⟨"shop/main.json"⟩ ()).result = .ok s ∧
      loadDecl (.ofFiles market) ⟨"shop/main.json"⟩ = .ok decl ∧
      InTourOrder (.ofFiles market) (some ⟨"shop/main.json"⟩) decl s ∧
      s.databases.map (·.tableNames) = [["shop", "order", "line", "article", "shelf", "coin"]] := by
  have hnames : (load {} (.ofFiles market) ⟨"shop/main.json"⟩ ()).result.toOption.map (·.databases.map (·.tableNames)) =
      some [["shop", "order", "line", "article", "shelf", "coin"]] := by decide +kernel
  cases hs : (load {} (.ofFiles market) ⟨"shop/main.json"⟩ ()).result with
  | error e =>
    rw [hs] at hnames
    cases hnames
  | ok s =>
    rw [hs] at hnames
    obtain ⟨decl, hdecl, horder⟩ := (tables_in_tour_order {} (.ofFiles market)).2 ⟨"shop/main.json"⟩ s hs
    exact ⟨decl, s, rfl, hdecl, horder, Option.some.inj hnames⟩

end Schema

end Runs

end Schemata
