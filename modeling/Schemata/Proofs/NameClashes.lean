import Schemata.Proofs.FinalizedNames
import Schemata.Proofs.Idempotence
import Schemata.Proofs.WellBuilt

/-!
# When generated names clash

Where no index has a name of its own, building and finalizing stop for the name of an index only where names
clash that were generated for different columns of one table (`duplicate_only_if_clashes`). That they can is
shown by two trees at the end.
-/

namespace Schemata

open Change
open Error (IsClash)

variable {wants : NameKind → List String → Prop} {kind : NameKind} {table : String}

/-! ### Declared indices -/

def IndexDecl.columnNames (i : IndexDecl) : List String :=
  i.columns.map (·.name)

namespace TableDecl

/-- The columns over which a table is declared to have indices, of each kind. -/
def Wants (t : TableDecl) : NameKind → List String → Prop
  | .index, columns => columns ∈ t.indices.map (·.columnNames)
  | .unique, columns => columns ∈ t.uniques.map (·.columnNames)
  | .key, _ => False

/-- The declaration names no index and no unique constraint, and no two indices nor two unique constraints are
    over the same columns. -/
structure LeavesNames (t : TableDecl) : Prop where
  unnamed : ∀ i ∈ t.indices ++ t.uniques, i.name = none
  indices : (t.indices.map (·.columnNames)).Nodup
  uniques : (t.uniques.map (·.columnNames)).Nodup

instance (t : TableDecl) : Decidable t.LeavesNames :=
  decidable_of_iff
    ((∀ i ∈ t.indices ++ t.uniques, i.name = none) ∧ (t.indices.map (·.columnNames)).Nodup ∧
      (t.uniques.map (·.columnNames)).Nodup)
    ⟨fun ⟨hn, hi, hu⟩ => ⟨hn, hi, hu⟩, fun ⟨hn, hi, hu⟩ => ⟨hn, hi, hu⟩⟩

end TableDecl

theorem Index.ofDecl_eq_ok {decl : IndexDecl} {i : Index} (h : Index.ofDecl decl = .ok i) :
    i.ownName = decl.name ∧ i.columnNames = decl.columnNames := by
  obtain ⟨vendor, -, h⟩ := bind_eq_ok.mp h
  obtain rfl := pure_eq_ok.mp h
  exact ⟨rfl, by simp [columnNames, IndexDecl.columnNames, Function.comp_def]⟩

/-- Where each declared part is read and added as it should be, what holds before the first of those that are left
    holds after the last. -/
theorem FailsWithin.addDeclared {α β σ : Type} {P : Error → Prop} {read : α → Except Error β}
    (add : σ → β → Except Error σ) {I : List α → σ → Prop} (hread : ∀ a, FailsWithin P (read a))
    (step : ∀ a rest s b, I (a :: rest) s → read a = .ok b →
      FailsWithin P (add s b) ∧ ∀ t, add s b = .ok t → I rest t) {l : List α} {s : σ} (hs : I l s) :
    FailsWithin P (Schemata.addDeclared read add s l) ∧ ∀ t, Schemata.addDeclared read add s l = .ok t → I [] t := by
  induction l generalizing s with
  | nil => exact ⟨trivial, fun t ht => Except.ok.inj ht ▸ hs⟩
  | cons a l ih =>
    simp only [Schemata.addDeclared, failsWithin_bind, bind_eq_ok]
    refine ⟨⟨hread a, fun b hb => ⟨(step a l s b hs hb).1, fun t ht => ?_⟩⟩, ?_⟩
    · exact (ih ((step a l s b hs hb).2 t ht)).1
    · rintro u ⟨b, hb, t, ht, hu⟩
      exact (ih ((step a l s b hs hb).2 t ht)).2 u hu

namespace Table
variable {r : Registry} {d : Database} {referenceOnly : Bool} {decl : TableDecl} {t : Table}

/-- Declared indices of one kind are added under names of that kind, unless these clash. The lists of columns that
    are left are none of those that are there. -/
theorem addDeclared_named (kind : NameKind) (add : Table → Index → Except Error Table) {is : List IndexDecl}
    (hadd : ∀ t i, t.NamedFor wants → i.ownName = none → wants kind i.columnNames →
      (∀ j ∈ t.among kind, j.columnNames ≠ i.columnNames) → AddsNamed wants kind t i (add t i))
    (hwants : ∀ i ∈ is, i.name = none ∧ wants kind i.columnNames) (hnodup : (is.map (·.columnNames)).Nodup)
    (ht : t.NamedFor wants) (hnone : t.among kind = []) (hname : t.name = table) :
    FailsWithin (IsClash (ClashesIn wants table)) (addDeclared Index.ofDecl add t is) ∧
      ∀ u, addDeclared Index.ofDecl add t is = .ok u → u.name = table ∧ u.NamedFor wants := by
  -- The indices of the kind are the declared ones that were read before.
  have hrun := FailsWithin.addDeclared add (P := IsClash (ClashesIn wants table))
    (I := fun left u => (u.name = table ∧ u.NamedFor wants) ∧ ∃ done, is = done ++ left ∧
      (u.among kind).map (·.columnNames) = done.map (·.columnNames))
    (fun i => Index.ofDecl_fails i) ?_ (l := is) (s := t) ⟨⟨hname, ht⟩, [], rfl, by rw [hnone]; rfl⟩
  · exact ⟨hrun.1, fun u hu => (hrun.2 u hu).1⟩
  · rintro a left u i ⟨⟨hu, hnamed⟩, done, hsplit, hdone⟩ hi
    obtain ⟨hown, hcolumns⟩ := Index.ofDecl_eq_ok hi
    obtain ⟨hunnamed, ha⟩ := hwants a (hsplit ▸ List.mem_append_right _ List.mem_cons_self)
    have hnew : ∀ j ∈ u.among kind, j.columnNames ≠ i.columnNames := by
      intro j hj heq
      have hmem : a.columnNames ∈ done.map (·.columnNames) := by
        rw [← hdone, ← hcolumns, ← heq]
        exact List.mem_map_of_mem hj
      rw [hsplit, List.map_append, List.map_cons, List.nodup_append'] at hnodup
      exact hnodup.2.2 hmem List.mem_cons_self
    have hadds := hadd u i hnamed (hown.trans hunnamed) (hcolumns ▸ ha) hnew
    refine ⟨hu ▸ hadds.fails, fun v hv => ⟨⟨(hadds.name v hv).trans hu, hadds.named v hv⟩, done ++ [a], ?_, ?_⟩⟩
    · rw [hsplit, List.append_assoc, List.singleton_append]
    · rw [hadds.among v hv, hdone, hcolumns, List.map_append, List.map_singleton]

section Declared
variable {settings : OwnSettings} {u : Table}

/-- The table before its indices are added. -/
theorem bare_of_addDeclared
    (ht : addDeclared (Column.ofDecl d decl.name) addColumn (head referenceOnly decl settings) decl.columns = .ok t)
    (hu : addDeclared (ForeignKey.ofDecl decl.name) addForeignKey t decl.foreignKeys = .ok u) :
    u.name = decl.name ∧ u.indices = [] ∧ u.uniques = [] := by
  refine addDeclared_keeps (I := fun u => u.name = decl.name ∧ u.indices = [] ∧ u.uniques = []) ?_ hu ?_
  · intro _ _ k t u _ hadd ht
    obtain ⟨-, rfl⟩ := addForeignKey_eq_ok.mp hadd
    exact ht
  · refine addDeclared_keeps (I := fun u => u.name = decl.name ∧ u.indices = [] ∧ u.uniques = []) ?_ ht ⟨rfl, rfl, rfl⟩
    intro _ _ m t u _ hadd ht
    obtain ⟨-, rfl⟩ := addColumn_eq_ok.mp hadd
    exact ht

variable (h : decl.LeavesNames)
include h

theorem indices_named (ht : t.name = decl.name ∧ t.indices = [] ∧ t.uniques = []) :
    FailsWithin (IsClash (ClashesIn decl.Wants decl.name)) (addDeclared Index.ofDecl addIndex t decl.indices) ∧
      ∀ u, addDeclared Index.ofDecl addIndex t decl.indices = .ok u →
        (u.name = decl.name ∧ u.NamedFor decl.Wants) ∧ u.uniques = [] := by
  obtain ⟨hname, hindices, huniques⟩ := ht
  have hnamed : t.NamedFor decl.Wants := by simp [NamedFor, hindices, huniques]
  obtain ⟨hfails, hgives⟩ := addDeclared_named .index addIndex
    (fun t i ht hnone hwants hnew => addsNamed_addIndex ht (by simp) (Index.name_named_of_none hnone).1 hwants hnew)
    (fun i hi => ⟨h.unnamed i (List.mem_append_left _ hi), List.mem_map_of_mem hi⟩) h.indices hnamed hindices hname
  refine ⟨hfails, fun u hu => ⟨hgives u hu, ?_⟩⟩
  refine addDeclared_keeps (I := fun u : Table => u.uniques = []) ?_ hu huniques
  intro _ _ i t u _ hadd ht
  obtain ⟨j, -, rfl⟩ := addIndex_eq_ok.mp hadd
  exact ht

theorem uniques_named (ht : (t.name = decl.name ∧ t.NamedFor decl.Wants) ∧ t.uniques = []) :
    FailsWithin (IsClash (ClashesIn decl.Wants decl.name)) (addDeclared Index.ofDecl addUnique t decl.uniques) ∧
      ∀ u, addDeclared Index.ofDecl addUnique t decl.uniques = .ok u → u.name = decl.name ∧ u.NamedFor decl.Wants :=
  addDeclared_named .unique addUnique
    (fun _ _ ht hnone hwants hnew => addsNamed_addUnique ht (Index.name_named_of_none hnone).2 hwants hnew)
    (fun i hi => ⟨h.unnamed i (List.mem_append_right _ hi), List.mem_map_of_mem hi⟩) h.uniques ht.1.2 ht.2 ht.1.1

/-- A table of a declaration that leaves the names open is built with names of its kinds, unless they clash. -/
theorem ofDecl_named :
    FailsWithin (IsClash (ClashesIn decl.Wants decl.name)) (ofDecl r d referenceOnly decl) ∧
      ∀ t, ofDecl r d referenceOnly decl = .ok t → t.name = decl.name ∧ t.NamedFor decl.Wants := by
  constructor
  · simp only [ofDecl, failsWithin_bind]
    refine ⟨by simp, fun settings _ => ⟨by simp, fun t₁ h₁ => ⟨by simp, fun t₂ h₂ => ?_⟩⟩⟩
    obtain ⟨hfails, hindices⟩ := indices_named h (bare_of_addDeclared h₁ h₂)
    refine ⟨hfails, fun t₃ h₃ => ⟨(uniques_named h (hindices t₃ h₃)).1, fun t₄ _ => ?_⟩⟩
    simp
  · intro t ht
    simp only [ofDecl, bind_eq_ok, pure_eq_ok] at ht
    obtain ⟨settings, -, t₁, h₁, t₂, h₂, t₃, h₃, t₄, h₄, t₅, h₅, vendor, -, ids, -, rfl⟩ := ht
    have hnamed := (uniques_named h ((indices_named h (bare_of_addDeclared h₁ h₂)).2 t₃ h₃)).2 t₄ h₄
    have hbehaviors : t₅.name = decl.name ∧ t₅.NamedFor decl.Wants := by
      refine addDeclared_keeps (I := fun t => t.name = decl.name ∧ t.NamedFor decl.Wants) ?_ h₅ hnamed
      intro _ _ b t u _ hadd ⟨hname, ht⟩
      obtain ⟨rfl, -⟩ := addBehavior_eq_ok hadd
      exact ⟨hname, ht.congr rfl rfl rfl⟩
    exact ⟨hbehaviors.1, hbehaviors.2.congr rfl rfl rfl⟩

end Declared

end Table

/-! ### Schemas -/

namespace Schema
variable {r : Registry} {l : Library} {limit : Nat} {start : Option Path} {j : Json} {s : Schema}

theorem databases_forced {c : Config} {d : Database} (hd : d ∈ (s.forced c).databases) :
    ∃ e ∈ s.databases, ∃ settings, d = { e with settings := settings } := by
  unfold forced at hd
  split at hd
  · obtain ⟨e, he, rfl⟩ := List.mem_map.mp hd
    exact ⟨e, he, _, rfl⟩
  · exact ⟨d, hd, d.settings, rfl⟩

theorem finalizeWithin_fails {P : Error → Prop} {c : Config}
    (h : (finalize limit r c.platform).FailsWithin P (s.forced c)) :
    (finalizeWithin limit r c).FailsWithin P s := by
  unfold finalizeWithin
  unfold forced at h
  split
  · rename_i hforce
    rw [if_pos hforce] at h
    exact (failsWithin_modify _).bind fun _ t ht => gives_modify.mp ht ▸ h
  · rename_i hforce
    rw [if_neg hforce] at h
    exact h

theorem finalize_fails {p : Platform}
    (hs : ∀ d ∈ s.databases, d.DistinctNames ∧ d.Quiet ∧ ∀ t ∈ d.tables, t.Generated) :
    (finalize limit r p).FailsWithin
      (IsClash fun owner name => ∃ d ∈ s.databases, ∃ t ∈ d.tables, t.name = owner ∧ Clashes (d.Wants p t) owner name)
      s := by
  refine .within (.each fun d hd => ?_)
  obtain ⟨hnames, hquiet, hgenerated⟩ := hs d hd
  refine FailsWithin.bind ?_ fun _ _ _ => failsWithin_pure _
  exact (Database.finalize_fails hnames hquiet hgenerated).mono fun e he => he.mono fun owner name h => ⟨d, hd, h⟩

theorem generated_of_ofDecl {t : TableDecl} (h : t.LeavesNames) {d : Database} {b : Bool} {u : Table}
    (hu : Table.ofDecl r d b t = .ok u) : u.Generated := by
  refine ((Table.ofDecl_named h).2 u hu).2.mono fun kind i _ hwants => ?_
  rintro rfl
  exact hwants

/-- Where no index and no unique constraint is given a name, and no two of a table are over the same columns,
    building a tree stops for the name of an index only if generated names clash: in a table that is declared in a
    file which the run reaches, for different columns of two indices or of two unique constraints. The same
    holds of the finalization of what was built, if no behavior is pending: the columns are those of
    indices of one table, or suffixes of its primary key, or those of its keys. Either way one of the
    columns has an underscore. -/
theorem duplicate_only_if_clashes (r : Registry) (l : Library) (start : Option Path) (j : Json)
    (hleaves : ∀ t, Declares (declFrom l start j) start t → t.LeavesNames) :
    (∀ name owner, (build r l start j ()).result = .error (.constraint (.duplicateIndexName name owner)) →
      ∃ t, Declares (declFrom l start j) start t ∧ t.name = owner ∧ Clashes t.Wants owner name) ∧
    ∀ s, (build r l start j ()).result = .ok s → (∀ d ∈ s.databases, d.Quiet) → ∀ limit c name owner,
      (finalizeWithin limit r c s).result = .error (.constraint (.duplicateIndexName name owner)) →
        ∃ d ∈ (s.forced c).databases, ∃ t ∈ d.tables, t.name = owner ∧ Clashes (d.Wants c.platform t) owner name := by
  constructor
  · intro name owner herror
    have hfails : Schemata.FailsWithin (IsClash fun owner name => ∃ t, Declares (declFrom l start j) start t ∧
        t.name = owner ∧ Clashes t.Wants owner name) (build r l start j ()).result := by
      refine build_fails_declared (fun _ _ _ _ h => nomatch h) fun t ht d b => ?_
      refine (Table.ofDecl_named (hleaves t ht)).1.mono fun e he => he.mono ?_
      rintro owner name ⟨rfl, hclash⟩
      exact ⟨t, ht, rfl, hclash⟩
    rw [herror] at hfails
    exact hfails name owner rfl
  · intro s hs hquiet limit c name owner herror
    have hbuilt := wellBuilt_build hs
    have hgenerated : s.WellFormed Table.Generated :=
      wellFormed_build (fun _ ht => ht.congr rfl rfl rfl) (fun t ht _ _ _ hu => generated_of_ofDecl (hleaves t ht) hu) hs
    have hfails : (finalizeWithin limit r c).FailsWithin (IsClash fun owner name => ∃ d ∈ (s.forced c).databases,
        ∃ t ∈ d.tables, t.name = owner ∧ Clashes (d.Wants c.platform t) owner name) s := by
      refine finalizeWithin_fails (finalize_fails fun d hd => ?_)
      obtain ⟨e, he, settings, rfl⟩ := databases_forced hd
      have hwell := hbuilt.each e he
      refine ⟨⟨hwell.tables, fun t ht => (hwell.inTables t ht).toDistinctNames⟩, ?_, (hgenerated.each e he).inTables⟩
      exact ⟨(hquiet e he).own, (hquiet e he).inTables⟩
    rw [Change.FailsWithin, herror] at hfails
    exact hfails name owner rfl

/-- The tables of a tree that includes nothing. -/
theorem declares_of_no_includes {decl : SchemaDecl} {t : TableDecl} (hj : SchemaDecl.record.shape j = .ok decl)
    (hnone : decl.includes = []) (h : Declares (declFrom l start j) start t) : t ∈ decl.tables := by
  obtain ⟨x, inner, hreached, hx, ht⟩ := h
  rcases hreached.cases_head with rfl | ⟨y, ⟨outer, i, p, houter, hi, -⟩, -⟩
  · obtain rfl := Option.some.inj ((declFrom_start hj).symm.trans hx)
    exact ht
  · obtain rfl := Option.some.inj ((declFrom_start hj).symm.trans houter)
    rw [hnone] at hi
    cases hi

/-- The stock of a warehouse with a primary key and indices over some of its columns. -/
def stockTree (key : List String) (indices : List (List String)) : Json :=
  .obj [("name", .str "warehouse"), ("tables", .arr
    [.obj [("name", .str "stock"),
      ("columns", .arr (["shelf", "bin_code", "id", "bin", "code_id"].map fun name =>
        .obj [("name", .str name), ("type", .str "INTEGER"), ("primaryKey", .bool (key.contains name))])),
      ("indices", .arr (indices.map fun names => .obj [("columns", .arr (names.map .str))]))]])]

/-- Two declared indices get one name. -/
def crossedStock : Json :=
  stockTree ["shelf"] [["bin_code", "id"], ["bin", "code_id"]]

/-- The declared index has the name that heavy indexing wants for the last two columns of the primary key. -/
def keyedStock : Json :=
  stockTree ["shelf", "bin_code", "id"] [["bin", "code_id"]]

theorem leavesNames_stock :
    (∀ t, Declares (declFrom .empty none crossedStock) none t → t.LeavesNames) ∧
      ∀ t, Declares (declFrom .empty none keyedStock) none t → t.LeavesNames := by
  constructor
  · obtain ⟨decl, hj, hnone, hall⟩ : ∃ decl, SchemaDecl.record.shape crossedStock = .ok decl ∧ decl.includes = [] ∧
        ∀ t ∈ decl.tables, t.LeavesNames := ⟨_, rfl, rfl, by decide⟩
    exact fun t h => hall t (declares_of_no_includes hj hnone h)
  · obtain ⟨decl, hj, hnone, hall⟩ : ∃ decl, SchemaDecl.record.shape keyedStock = .ok decl ∧ decl.includes = [] ∧
        ∀ t ∈ decl.tables, t.LeavesNames := ⟨_, rfl, rfl, by decide⟩
    exact fun t h => hall t (declares_of_no_includes hj hnone h)

theorem build_crossedStock : (build .builtin .empty none crossedStock ()).result =
    .error (.constraint (.duplicateIndexName "stock_i_bin_code_id" "stock")) := by
  have herror : (build .builtin .empty none crossedStock ()).result.map (fun _ => ()) =
      .error (.constraint (.duplicateIndexName "stock_i_bin_code_id" "stock")) := by decide +kernel
  cases hs : (build .builtin .empty none crossedStock ()).result with
  | error e =>
    rw [hs] at herror
    cases herror
    rfl
  | ok s =>
    rw [hs] at herror
    cases herror

theorem finalize_keyedStock : ∃ s, (build .builtin .empty none keyedStock ()).result = .ok s ∧
    (∀ d ∈ s.databases, d.behaviors = [] ∧ ∀ t ∈ d.tables, t.behaviors = []) ∧
      (finalizeWithin settleLimit .builtin { heavyIndexing := true } s).result =
        .error (.constraint (.duplicateIndexName "stock_i_bin_code_id" "stock")) := by
  have hrun : (build .builtin .empty none keyedStock ()).result.map (fun s =>
      (decide (∀ d ∈ s.databases, d.behaviors = [] ∧ ∀ t ∈ d.tables, t.behaviors = []),
        (finalizeWithin settleLimit .builtin { heavyIndexing := true } s).result)) =
      .ok (true, .error (.constraint (.duplicateIndexName "stock_i_bin_code_id" "stock"))) := by decide +kernel
  cases hs : (build .builtin .empty none keyedStock ()).result with
  | error e =>
    rw [hs] at hrun
    cases hrun
  | ok s =>
    rw [hs] at hrun
    obtain ⟨hbehaviors, herror⟩ := Prod.mk.inj (Except.ok.inj hrun)
    exact ⟨s, rfl, of_decide_eq_true hbehaviors, herror⟩

theorem duplicate_only_if_clashes_stock :
    (∃ t, Declares (declFrom .empty none crossedStock) none t ∧ t.name = "stock" ∧
        Clashes t.Wants "stock" "stock_i_bin_code_id") ∧
      ∃ s, (build .builtin .empty none keyedStock ()).result = .ok s ∧ (∀ d ∈ s.databases, d.Quiet) ∧
        ∃ d ∈ (s.forced { heavyIndexing := true }).databases, ∃ t ∈ d.tables, t.name = "stock" ∧
          Clashes (d.Wants (.plain .generic) t) "stock" "stock_i_bin_code_id" := by
  obtain ⟨hcrossed, hkeyed⟩ := leavesNames_stock
  refine ⟨(duplicate_only_if_clashes .builtin .empty none crossedStock hcrossed).1 _ _ build_crossedStock, ?_⟩
  obtain ⟨s, hs, hbehaviors, herror⟩ := finalize_keyedStock
  have hquiet : ∀ d ∈ s.databases, d.Quiet := by
    intro d hd
    obtain ⟨hown, hin⟩ := hbehaviors d hd
    refine ⟨by simp [Database.pendingBehaviors, hown], ?_⟩
    simp only [Database.pendingTableBehaviors, List.flatMap_eq_nil_iff]
    intro t ht
    rw [hin t ht]
    rfl
  exact ⟨s, hs, hquiet, (duplicate_only_if_clashes .builtin .empty none keyedStock hkeyed).2 s hs hquiet _ _ _ _ herror⟩

/-- Both trees leave all names open, and no two of their indices are over the same columns. The first cannot be built,
    and the second cannot be finalized with heavy indexing, although it has no behaviors. -/
theorem generated_names_coincide :
    (∀ t, Declares (declFrom .empty none crossedStock) none t → t.LeavesNames) ∧
      (build .builtin .empty none crossedStock ()).result =
        .error (.constraint (.duplicateIndexName "stock_i_bin_code_id" "stock")) ∧
      (∀ t, Declares (declFrom .empty none keyedStock) none t → t.LeavesNames) ∧
      ∃ s, (build .builtin .empty none keyedStock ()).result = .ok s ∧
        (∀ d ∈ s.databases, d.behaviors = [] ∧ ∀ t ∈ d.tables, t.behaviors = []) ∧
        (finalizeWithin settleLimit .builtin { heavyIndexing := true } s).result =
          .error (.constraint (.duplicateIndexName "stock_i_bin_code_id" "stock")) :=
  ⟨leavesNames_stock.1, build_crossedStock, leavesNames_stock.2, finalize_keyedStock⟩

end Schema

end Schemata
