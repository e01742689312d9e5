import Schemata.Plugin.Builtin
import Schemata.Proofs.Acyclic
import Schemata.Proofs.Merge

/-!
# What is built is well-formed

A schema that is built from declarations is well-formed, since its parts are added by the operations
that keep it so, and its columns are proper: a column of the primary key is never null, and the classes
of a column have keys of their own.
-/

namespace Schemata

open Change

variable {r : Registry} {l : Library}

/-! ### Columns -/

namespace Column

variable {c m : Column}

theorem addClass_eq_ok {i : InheritanceClass} :
    c.addClass i = .ok m ↔
      c.inheritance.any (·.key == i.key) = false ∧ m = { c with inheritance := c.inheritance ++ [i] } := by
  unfold addClass
  cases c.inheritance.any (·.key == i.key)
  · simp [eq_comm]
  · simp

theorem Proper.addClass {i : InheritanceClass} (h : c.Proper) (hadd : c.addClass i = .ok m) : m.Proper := by
  obtain ⟨hfresh, rfl⟩ := addClass_eq_ok.mp hadd
  exact ⟨h.keyed, nodup_append_singleton h.classes (not_mem_of_any_eq_false hfresh)⟩

theorem Proper.addClasses {owner : DefaultOwner} {is : List InheritanceDecl} (h : c.Proper)
    (hadd : addClasses owner c is = .ok m) : m.Proper := by
  induction is generalizing c with
  | nil =>
    cases hadd
    exact h
  | cons i is ih =>
    obtain ⟨key, -, hadd⟩ := bind_eq_ok.mp hadd
    obtain ⟨n, hn, hadd⟩ := bind_eq_ok.mp hadd
    exact ih (h.addClass hn) hadd

theorem proper_ofDecl {d : Database} {table : String} {decl : ColumnDecl} (h : ofDecl d table decl = .ok c) :
    c.Proper := by
  simp only [ofDecl, bind_eq_ok, pure_eq_ok] at h
  obtain ⟨domain, -, m, hm, vendor, -, rfl⟩ := h
  have hproper : m.Proper := by
    refine Proper.addClasses ⟨fun hkey => ?_, ?_⟩ hm
    · exact Bool.or_eq_true_iff.mpr (.inr hkey)
    · exact List.nodup_nil
  exact ⟨hproper.keyed, hproper.classes⟩

end Column

/-! ### Tables -/

theorem Table.WellBuilt.of_columns {t u : Table} (h : t.WellBuilt) (hu : u.WellFormed)
    (hcolumns : u.columns = t.columns) : u.WellBuilt :=
  ⟨hu, hcolumns ▸ h.proper⟩

theorem Table.wellFormed_head (referenceOnly : Bool) (decl : TableDecl) (settings : OwnSettings) :
    (Table.head referenceOnly decl settings).WellFormed :=
  (Table.wellFormed_empty decl.name).of_sameNames ⟨rfl, rfl, rfl, rfl, rfl, rfl⟩

theorem Table.wellBuilt_ofDecl {d : Database} {referenceOnly : Bool} {decl : TableDecl} {t : Table}
    (h : Table.ofDecl r d referenceOnly decl = .ok t) : t.WellBuilt := by
  refine Table.ofDecl_keeps (I := Table.WellBuilt) h ?_ ?_ ?_ ?_ ?_ ?_ ?_
  · exact fun settings => ⟨Table.wellFormed_head referenceOnly decl settings, fun c hc => absurd hc List.not_mem_nil⟩
  · intro c m t u hm hadd ht
    refine ⟨ht.toWellFormed.addColumn hadd, ?_⟩
    obtain ⟨-, rfl⟩ := Table.addColumn_eq_ok.mp hadd
    exact forall_mem_append_singleton ht.proper (Column.proper_ofDecl hm)
  · intro k t u hadd ht
    refine ht.of_columns (ht.toWellFormed.addForeignKey hadd) ?_
    obtain ⟨-, rfl⟩ := Table.addForeignKey_eq_ok.mp hadd
    rfl
  · intro i t u hadd ht
    refine ht.of_columns (ht.toWellFormed.addIndex hadd) ?_
    obtain ⟨j, -, rfl⟩ := Table.addIndex_eq_ok.mp hadd
    rfl
  · intro i t u hadd ht
    refine ht.of_columns (ht.toWellFormed.addUnique hadd) ?_
    obtain ⟨j, -, rfl⟩ := Table.addUnique_eq_ok.mp hadd
    rfl
  · intro _ b t u _ hadd ht
    refine ht.of_columns (ht.toWellFormed.addBehavior hadd) ?_
    obtain ⟨rfl, -⟩ := Table.addBehavior_eq_ok hadd
    rfl
  · exact fun t vendor ids ht => ht.of_columns (ht.toWellFormed.of_sameNames ⟨rfl, rfl, rfl, rfl, rfl, rfl⟩) rfl

/-! ### Databases -/

namespace Database

variable {P : Table → Prop} {decl : SchemaDecl} {d e : Database}

theorem wellFormed_head (h : head decl = .ok d) : d.WellFormed P := by
  refine head_keeps (I := Database.WellFormed P) h (fun settings => ?_) fun m d e hadd hd => hd.addDomain hadd
  have hempty := wellFormed_empty P decl.name
  exact ⟨hempty.tables, hempty.domains, hempty.behaviors, hempty.ownBehaviors, hempty.inTables⟩

theorem wellFormed_addSettings (h : d.addSettings r decl = .ok e) (hd : d.WellFormed P) : e.WellFormed P := by
  refine addSettings_keeps (I := Database.WellFormed P) h (fun b d e hadd hd => hd.addBehavior hadd) ?_ hd
  exact fun d vendor hd => ⟨hd.tables, hd.domains, hd.behaviors, hd.ownBehaviors, hd.inTables⟩

theorem wellFormed_addDeclaredTables {referenceOnly : Bool} {ts : List TableDecl}
    (htables : ∀ t ∈ ts, ∀ d u, Table.ofDecl r d referenceOnly t = .ok u → P u)
    (h : (addDeclaredTables r referenceOnly ts).Gives d () e) (hd : d.WellFormed P) : e.WellFormed P := by
  refine addDeclaredTables_keeps (I := Database.WellFormed P) h ?_ hd
  exact fun t ht table d e htable hadd hd => hd.addTable (htables t ht d table htable) hadd

end Database

/-! ### Schemas -/

section Build
variable {source : Option Path → Option SchemaDecl} {start x : Option Path} {P : Table → Prop}
  (hstored : Stored l source start) (hmarked : ∀ t, P t → P { t with referenceOnly := true })
  (htables : ∀ t, Declares source start t → ∀ d b u, Table.ofDecl r d b t = .ok u → P u)
  {decl : SchemaDecl} {b : Bool} {v w : Visits} {s : Schema}
include hstored hmarked htables

theorem wellFormed_buildDecl {build : SchemaDecl → Path → Bool → Edit Visits Schema}
    (hkept : ∀ decl p b v s w, (build decl p b).Gives v s w → w.building = v.building)
    (hbuild : ∀ decl p b v s w, source (some p) = some decl → OnWay source start (some p) v →
      (build decl p b).Gives v s w → s.WellFormed P)
    (hx : source x = some decl) (hv : OnWay source start x v) (h : (buildDecl r l build decl x b).Gives v s w) :
    s.WellFormed P := by
  obtain ⟨included, head, equipped, d, hincluded, hhead, hequipped, hadded, hmerged⟩ := gives_buildDecl h
  have hd : d.WellFormed P := by
    refine Database.wellFormed_addDeclaredTables (fun t ht d => htables t ⟨x, decl, hv.reached, hx, ht⟩ d b) hadded ?_
    exact Database.wellFormed_addSettings hequipped (Database.wellFormed_head hhead)
  have hall : ∀ i ∈ included, i.schema.WellFormed P := by
    refine Gives.gather_all (I := fun u => OnWay source start x u) ?_ hv hincluded
    intro i hi u y u' hu hgives
    refine ⟨hu.of_building (building_buildInclude hkept hgives), ?_⟩
    obtain ⟨p, hp, hfree, ⟨-, rfl, -⟩ | ⟨-, inner, schema, u'', hinner, hschema, rfl, -⟩⟩ := gives_buildInclude hgives
    · exact fun c hc => absurd hc (Option.not_mem_none c)
    · intro c hc
      obtain rfl := Option.mem_some.mp hc
      have hnext : Includes source x (some p) := ⟨decl, i, p, hx, hi, hp, rfl⟩
      exact hbuild _ _ _ _ _ _ (hstored.source_eq hu.hasStart hfree hinner) (hu.visit hnext) hschema
  refine Gives.forEach (R := fun s t => s.WellFormed P → t.WellFormed P) (fun _ => id) (fun h h' => h' ∘ h) ?_ hmerged
    (Database.AllWellFormed.nil.append hd List.not_mem_nil)
  rintro i hi s t ⟨-, rfl⟩
  exact Schema.wellFormed_addInclude (hall i hi) hmarked s

theorem wellFormed_buildNested {depth : Nat} (hx : source x = some decl) (hv : OnWay source start x v)
    (h : (buildNested r l depth decl x b).Gives v s w) : s.WellFormed P := by
  induction depth generalizing x decl b v s w with
  | zero =>
    refine wellFormed_buildDecl hstored hmarked htables ?_ ?_ hx hv h
    · exact fun _ _ _ _ _ _ hfail => absurd hfail not_gives_fail
    · exact fun _ _ _ _ _ _ _ _ hfail => absurd hfail not_gives_fail
  | succ depth ih =>
    refine wellFormed_buildDecl hstored hmarked htables ?_ ?_ hx hv h
    · exact fun _ _ _ _ _ _ hs => building_buildNested hs
    · exact fun _ _ _ _ _ _ hfile hway hs => ih hfile hway hs

end Build

namespace Schema

variable {start : Option Path} {j : Json} {s : Schema}

/-- What holds of each table that is built from a declaration which the run reaches holds of all tables, where it
    does not depend on whether a table may only be referred to. -/
theorem wellFormed_build {P : Table → Prop} (hmarked : ∀ t, P t → P { t with referenceOnly := true })
    (htables : ∀ t, Declares (declFrom l start j) start t → ∀ d b u, Table.ofDecl r d b t = .ok u → P u)
    (h : (build r l start j ()).result = .ok s) : s.WellFormed P := by
  obtain ⟨decl, w, hdecl, hgives⟩ := gives_build h
  exact wellFormed_buildNested declFrom_stored hmarked htables (declFrom_start hdecl) onWay_startVisits hgives

/-- A run that does not fail with an error about a file fails as one of the tables that it reaches does. -/
theorem build_fails_declared {P : Error → Prop} [Error.Allows P] (hload : ∀ p cause, P (.load p cause))
    (htables : ∀ t, Declares (declFrom l start j) start t → ∀ d b, Schemata.FailsWithin P (Table.ofDecl r d b t)) :
    Schemata.FailsWithin P (build r l start j ()).result :=
  build_fails fun _ hdecl => buildNested_fails_onWay declFrom_stored (fun p cause _ => hload p cause)
    (fun p _ => hload p _) htables _ false (declFrom_start hdecl) onWay_startVisits

theorem wellBuilt_build (h : (build r l start j ()).result = .ok s) : s.WellFormed Table.WellBuilt :=
  wellFormed_build (fun _ ht => ht.marked) (fun _ _ _ _ _ hu => Table.wellBuilt_ofDecl hu) h

theorem wellBuilt_load {p : Path} (h : (load r l p ()).result = .ok s) : s.WellFormed Table.WellBuilt := by
  cases hj : l.load p with
  | error e =>
    rw [load_of_error hj] at h
    cases h
  | ok j =>
    rw [load_of_ok hj] at h
    exact wellBuilt_build h

/-! ### All ways to make a schema -/

/-- What is built is well-formed and of proper columns; operations on tables, databases and schemas keep what is
    well-formed, and one that fails changes nothing, except that a merge keeps what it did before it failed. -/
theorem wellFormed_throughout (r : Registry) (l : Library) :
    ((∀ start j s, (build r l start j ()).result = .ok s → s.WellFormed Table.WellBuilt) ∧
        ∀ p s, (load r l p ()).result = .ok s → s.WellFormed Table.WellBuilt) ∧
      Operations Table.Operation.run (fun _ => True) (fun _ => True) Table.WellFormed ∧
      Operations Database.Operation.run Database.Operation.Admissible (fun _ => True)
        (Database.WellFormed Table.WellFormed) ∧
      Operations Schema.Operation.run Schema.Operation.Admissible Schema.Operation.IsAtomic
        (Schema.WellFormed Table.WellFormed) ∧
      ∀ op : Schema.Operation, ∀ s e, (op.run s).result = .error e →
        ∃ ds, (op.run s).state = { s with databases := ds } ∧ Grown s.databases ds := by
  refine ⟨⟨fun _ _ _ => wellBuilt_build, fun _ _ => wellBuilt_load⟩, Table.operations, Database.operations,
    Schema.operations, ?_⟩
  intro op s e h
  cases op with
  | addInclude i => exact grown_of_addInclude_error h
  | join other => exact grown_of_join_error h
  | addDatabase d =>
    have hsame := operations.unchanged (.addDatabase d) trivial s e h
    exact ⟨s.databases, hsame.trans s.mk_fields.symm, trail_grown.refl s.databases⟩
  | onDatabase name op =>
    have hsame := operations.unchanged (.onDatabase name op) trivial s e h
    exact ⟨s.databases, hsame.trans s.mk_fields.symm, trail_grown.refl s.databases⟩

/-- Trees have a kind with two classes, an index over it and a key to the only other table. -/
def orchard : Json :=
  .obj [("name", .str "orchard"), ("behaviors", .arr [.obj [("name", .str "timestampable")]]),
    ("tables", .arr
      [.obj [("name", .str "tree"),
          ("columns", .arr
            [.obj [("name", .str "id"), ("type", .str "INTEGER"), ("primaryKey", .bool true)],
              .obj [("name", .str "kind"), ("inheritance", .arr
                [.obj [("key", .str "a"), ("class", .str "Apple")],
                  .obj [("key", .str "p"), ("class", .str "Pear")]])]]),
          ("foreignKeys", .arr [.obj [("foreignTable", .str "field")]]),
          ("indices", .arr [.obj [("columns", .arr [.str "kind"])]])],
        .obj [("name", .str "field")]])]

/-- Of these operations on a table the second and the fourth fail. -/
def labelOperations : List Table.Operation :=
  [.addColumn { name := "code" }, .addColumn { name := "code" }, .addIndex { columns := [⟨"code", none⟩] },
    .addUnique { ownName := some "label_i_code", columns := [⟨"code", none⟩] },
    .addForeignKey { name := "k", target := "tree" }]

theorem wellFormed_throughout_orchard :
    (∃ s, (build .builtin .empty none orchard ()).result = .ok s ∧ s.WellFormed Table.WellBuilt ∧
      s.databases.map (·.tableNames) = [["tree", "field"]]) ∧
    (runAll Table.Operation.run { name := "label" } labelOperations).WellFormed ∧
    ∃ ds, (addInclude annex depot).state = { depot with databases := ds } ∧ Grown depot.databases ds := by
  obtain ⟨⟨hbuild, -⟩, htables, -, -, hmerge⟩ := wellFormed_throughout .builtin .empty
  refine ⟨?_, htables.kept labelOperations (fun _ _ => trivial) _ (Table.wellFormed_empty "label"),
    hmerge (.addInclude annex) depot (.constraint (.duplicateTable "crate" "shop")) rfl⟩
  have hnames : (build .builtin .empty none orchard ()).result.toOption.map (·.databases.map (·.tableNames)) =
      some [["tree", "field"]] := by decide +kernel
  cases hs : (build .builtin .empty none orchard ()).result with
  | error e =>
    rw [hs] at hnames
    cases hnames
  | ok s =>
    rw [hs] at hnames
    exact ⟨s, rfl, hbuild none orchard s hs, Option.some.inj hnames⟩

end Schema

end Schemata
