import Schemata.Proofs.Served
import Schemata.Proofs.WellBuilt

/-!
# What generated code refers to

The code that a built-in behavior contributes to a table names columns and a class. The columns are those that the
behavior left on the table, and the class is named after the archive that it left in the database. The archive has
that class unless it was declared with another one (`Schema.rendered_code_refers`).
-/

namespace Schemata

/-! ### Before anything has run -/

namespace Behavior
variable {r : Registry} {b : Behavior}

theorem executed_setParameters {params : List (String × String)} :
    (params.foldl (fun b p => b.setParameter p.1 p.2) b).executed = b.executed := by
  induction params generalizing b with
  | nil => rfl
  | cons p params ih => exact ih

theorem executed_ofDecl {decl : BehaviorDecl} (h : ofDecl r decl = .ok b) : b.executed = false := by
  simp only [ofDecl, bind_eq_ok, pure_eq_ok] at h
  obtain ⟨made, hmade, params, -, rfl⟩ := h
  unfold Registry.create at hmade
  split at hmade
  · cases hmade
    exact executed_setParameters
  · cases hmade

end Behavior

/-- A well-built table on which no behavior has run. -/
structure Table.Fresh (t : Table) : Prop extends t.WellBuilt where
  waiting : ∀ b ∈ t.behaviors, b.executed = false

theorem Table.fresh_ofDecl {r : Registry} {d : Database} {referenceOnly : Bool} {decl : TableDecl} {t : Table}
    (h : Table.ofDecl r d referenceOnly decl = .ok t) : t.Fresh := by
  refine ⟨Table.wellBuilt_ofDecl h, ?_⟩
  refine Table.ofDecl_keeps (I := fun t => ∀ b ∈ t.behaviors, b.executed = false) h ?_ ?_ ?_ ?_ ?_ ?_ ?_
  · exact fun _ b hb => absurd hb List.not_mem_nil
  · intro _ m t u _ hadd ht
    obtain ⟨-, rfl⟩ := addColumn_eq_ok.mp hadd
    exact ht
  · intro k t u hadd ht
    obtain ⟨-, rfl⟩ := addForeignKey_eq_ok.mp hadd
    exact ht
  · intro i t u hadd ht
    obtain ⟨j, -, rfl⟩ := addIndex_eq_ok.mp hadd
    exact ht
  · intro i t u hadd ht
    obtain ⟨j, -, rfl⟩ := addUnique_eq_ok.mp hadd
    exact ht
  · intro c b t u hb hadd ht
    obtain ⟨rfl, -⟩ := addBehavior_eq_ok hadd
    have hwaits := Behavior.executed_ofDecl hb
    exact forall_mem_append_singleton ht hwaits
  · exact fun _ _ _ ht => ht

namespace Database
variable {d e f : Database} {es : List Event}

theorem WellFormed.distinctNames (h : d.WellFormed Table.Fresh) : d.DistinctNames where
  tables := h.tables
  inTables t ht := (h.inTables t ht).toDistinctNames

/-- Where nothing has run there is nothing to serve. -/
theorem WellFormed.serving (h : d.WellFormed Table.Fresh) : d.Serving where
  names := h.tables
  ids := ⟨h.behaviors, fun t ht => (h.inTables t ht).behaviors⟩
  served t ht b hb hran := by
    rw [(h.inTables t ht).waiting b hb] at hran
    cases hran

/-! ### Names in code -/

/-- The tables with the names that they were given in code. -/
def givenNames (d : Database) : List (String × Option String) :=
  d.tables.map fun t => (t.name, t.ownCodeName)

/-- The tables keep their names, and the tables that join are given none in code. -/
def KeepsGivenNames (d e : Database) : Prop :=
  ∃ new, e.givenNames = d.givenNames ++ new ∧ ∀ q ∈ new, q.2 = none

theorem KeepsGivenNames.of_eq (h : e.givenNames = d.givenNames) : d.KeepsGivenNames e :=
  ⟨[], by rw [h, List.append_nil], fun _ hq => absurd hq List.not_mem_nil⟩

theorem keepsGivenNames_trail : Trail fun d _ e => KeepsGivenNames d e where
  refl _ := .of_eq rfl
  trans := by
    rintro d e f - - ⟨new, hnew, hnone⟩ ⟨new', hnew', hnone'⟩
    exact ⟨new ++ new', by rw [hnew', hnew, List.append_assoc], List.forall_mem_append.mpr ⟨hnone, hnone'⟩⟩

theorem find?_givenNames (d : Database) (name : String) :
    d.givenNames.find? (·.1 == name) = (d.table? name).map fun t => (t.name, t.ownCodeName) :=
  List.find?_map

/-- A table of a name is given in code what the table of that name was given before. -/
theorem KeepsGivenNames.ownCodeName (h : d.KeepsGivenNames e) {name : String} {u : Table} (hu : e.table? name = some u) :
    u.ownCodeName = (d.table? name).bind (·.ownCodeName) := by
  obtain ⟨new, hnew, hnone⟩ := h
  have hfind := find?_givenNames e name
  rw [hnew, List.find?_append, find?_givenNames, hu] at hfind
  cases hd : d.table? name with
  | some t =>
    rw [hd] at hfind
    exact (congrArg Prod.snd (Option.some.inj hfind)).symm
  | none =>
    rw [hd] at hfind
    exact hnone _ (List.mem_of_find?_eq_some hfind)

end Database

theorem Table.givenName_step {t u : Table} {es : List Event} (h : Table.Step t es u) :
    (u.name, u.ownCodeName) = (t.name, t.ownCodeName) := by
  cases h with
  | column _ added =>
    obtain ⟨-, rfl⟩ := addColumn_eq_ok.mp added
    rfl
  | index added =>
    obtain ⟨j, -, rfl⟩ := addIndex_eq_ok.mp added
    rfl
  | behavior added =>
    obtain ⟨rfl, -⟩ := addBehavior_eq_ok added
    rfl
  | link k => exact congrArg (fun t => (t.name, t.ownCodeName)) (clearReferrers_link t k)
  | told | executed | complete | prepare | dropIdMethod | refer => rfl

/-- An archive is given no name in code. -/
theorem Archivable.ownCodeName_archive {source t : Table} {name : String} {b : Behavior}
    (h : archive source name b = .ok t) : t.ownCodeName = none := by
  simp only [archive, bind, Except.bind] at h
  split at h
  · cases h
  rename_i v hv
  have hext := addArchivedColumn_eq h
  obtain ⟨cs, hcs, -⟩ := withoutAutoIncrement_eq v
  rw [hcs, addPlainIndices_indices hv] at hext
  have := congrArg Table.ownCodeName hext.fixed
  exact this

namespace Database
variable {d e : Database} {es : List Event}

theorem keepsGivenNames_step (h : Step d es e) : d.KeepsGivenNames e := by
  cases h with
  | told | executed => exact .of_eq rfl
  | table here steps =>
    have hkept := steps.lift (trail_same fun t => (t.name, t.ownCodeName)) Table.givenName_step
    have hall := forall₂_set (R := fun t u : Table => (u.name, u.ownCodeName) = (t.name, t.ownCodeName))
      (fun _ => rfl) here hkept
    exact .of_eq (map_eq_of_forall₂ hall fun _ _ => id)
  | tables each =>
    refine .of_eq (map_eq_of_forall₂ each fun t u htu => ?_)
    rcases htu with rfl | hstep
    · rfl
    · exact Table.givenName_step hstep
  | archive free found copied =>
    rename_i t
    refine ⟨[(t.name, none)], ?_, fun q hq => ?_⟩
    · rw [givenNames, List.map_append, List.map_singleton, Archivable.ownCodeName_archive copied]
      rfl
    · rw [List.mem_singleton.mp hq]

theorem keepsGivenNames_finalize {limit : Nat} {p : Platform} {ran : List HookRun}
    (h : (finalize limit .builtin p).Gives d ran e) : d.KeepsGivenNames e := by
  have hkeeps : d.KeepsGivenNames (finalize limit .builtin p d).state :=
    (steps_finalize limit p d).lift keepsGivenNames_trail keepsGivenNames_step
  rwa [h.2] at hkeeps

end Database

/-! ### What is rendered -/

namespace Timestampable

def recentlyUpdated (column : String) : String :=
  "fn recently_updated(self, days: u32) -> Self \x7b self.filter_by_" ++ Text.snakeCase column ++ "_since(days) \x7d"

def lastCreatedFirst (column : String) : String :=
  "fn last_created_first(self) -> Self \x7b self.order_by_" ++ Text.snakeCase column ++ "_desc() \x7d"

/-- The code is made from columns of the table, a statement or a method from each. -/
structure Refers (t : Table) (b : Behavior) (created updated : List String) : Prop where
  object : (b, objectCode) ∈ t.codeModifiers .builtin .object
  query : (b, queryCode) ∈ t.codeModifiers .builtin .query
  preInsert : objectCode.render "pre_insert" b t = lines? ((created ++ updated).map (touch t))
  preUpdate : objectCode.render "pre_update" b t = lines? (updated.map (touch t))
  queryMethods : queryCode.render "query_methods" b t =
    lines? (updated.map recentlyUpdated ++ created.map lastCreatedFirst)
  columns : ∀ c ∈ created ++ updated, t.hasColumn c = true

end Timestampable

namespace Archivable

/-- The code names the class of `a`, the archive, unless the table of its name in `d` was given another one. -/
structure Refers (d : Database) (t : Table) (b : Behavior) (a : Table) (className : String) : Prop where
  object : (b, objectCode) ∈ t.codeModifiers .builtin .object
  preDelete : objectCode.render "pre_delete" b t = some ("self.archive_into::<" ++ className ++ ">()?;")
  className_eq_iff : className = a.codeName ↔
    ∀ u, d.table? a.name = some u → ∀ own, u.ownCodeName = some own → own = Text.studlyCase a.name

end Archivable

namespace Table
variable {t : Table} {b : Behavior} {r : Registry} {plugin : Plugin} {m : CodeModifier} {target : CodeTarget}

theorem mem_codeModifiers (hb : b ∈ t.behaviors) (hplugin : r.get? b.name = some plugin)
    (hcode : plugin.code target = some m) : (b, m) ∈ t.codeModifiers r target := by
  refine List.mem_filterMap.mpr ⟨b, hb, ?_⟩
  rw [Registry.code?, hplugin, Option.bind_some, hcode, Option.map_some]

end Table

namespace Database
variable {d e : Database} {t : Table} {b : Behavior}

theorem Serves.timestampable (h : e.Serves t b) (hb : b ∈ t.behaviors) (hname : b.name = "timestampable") :
    ∃ created updated, Timestampable.Refers t b created updated := by
  have hplugin : Registry.builtin.get? b.name = some Timestampable.plugin := hname ▸ rfl
  exact ⟨(Timestampable.createColumn? b).toList, (Timestampable.updateColumn? b).toList,
    { object := Table.mem_codeModifiers hb hplugin rfl
      query := Table.mem_codeModifiers hb hplugin rfl
      preInsert := rfl
      preUpdate := rfl
      queryMethods := rfl
      columns := h.times hname }⟩

theorem Serves.archivable (h : e.Serves t b) (hkept : d.KeepsGivenNames e) (hb : b ∈ t.behaviors)
    (hname : b.name = "archivable") : ∃ a className, e.table? (Archivable.archiveName b t.name) = some a ∧
      Archivable.Refers d t b a className := by
  have hplugin : Registry.builtin.get? b.name = some Archivable.plugin := hname ▸ rfl
  obtain ⟨a, ha⟩ : ∃ a, e.table? (Archivable.archiveName b t.name) = some a :=
    Option.isSome_iff_exists.mp (List.find?_isSome.mpr (List.any_eq_true.mp (h.archive hname)))
  have haname : a.name = Archivable.archiveName b t.name := by simpa using List.find?_some ha
  have hown := hkept.ownCodeName ha
  refine ⟨a, Text.studlyCase a.name, ha, ⟨Table.mem_codeModifiers hb hplugin rfl, by rw [haname]; rfl, ?_⟩⟩
  rw [← haname] at hown
  rw [Table.codeName, hown]
  cases d.table? a.name with
  | none => simp
  | some u =>
    simp only [Option.bind_some, Option.some.injEq, forall_eq']
    cases u.ownCodeName with
    | none => simp
    | some own => simp [eq_comm]

end Database

namespace Schema
variable {l : Library} {start : Option Path} {j : Json} {s : Schema} {d e : Database} {p : Platform} {limit : Nat}
  {ran : List HookRun}

/-- In a database that is built and finalized, the code of timestampable is made from columns of the table, and the
    code of archivable from the name of a table that is there. It names the class of that table unless the table was
    declared with another one. -/
theorem rendered_code_refers (hs : (build .builtin l start j ()).result = .ok s) (hd : d ∈ s.databases)
    (h : (Database.finalize limit .builtin p).Gives d ran e) : ∀ t ∈ e.tables, ∀ b ∈ t.behaviors,
      (b.name = "timestampable" → ∃ created updated, Timestampable.Refers t b created updated) ∧
      (b.name = "archivable" → ∃ a className, e.table? (Archivable.archiveName b t.name) = some a ∧
        Archivable.Refers d t b a className) := by
  have hbuilt : s.WellFormed Table.Fresh :=
    wellFormed_build (fun _ ht => ⟨ht.toWellBuilt.marked, ht.waiting⟩) (fun _ _ _ _ _ hu => Table.fresh_ofDecl hu) hs
  have hfresh : d.WellFormed Table.Fresh := hbuilt.each d hd
  intro t ht b hb
  have hserves := Database.served_of_finalize hfresh.serving hfresh.distinctNames h ht hb
  exact ⟨hserves.timestampable hb, hserves.archivable (Database.keepsGivenNames_finalize h) hb⟩

/-- Books that are archived in a table which is declared with a class. -/
def libraryTree (className : String) : Json :=
  .obj [("name", .str "library"), ("tables", .arr
    [.obj [("name", .str "book"), ("columns", .arr [.obj [("name", .str "id"), ("type", .str "INTEGER")]]),
      ("behaviors", .obj [("timestampable", .obj []), ("archivable", .obj [])])],
     .obj [("name", .str "book_archive"), ("phpName", .str className),
      ("columns", .arr [.obj [("name", .str "id"), ("type", .str "INTEGER")]])]])]

def library (className : String) : Schema :=
  (build .builtin .empty none (libraryTree className) ()).result.toOption.getD {}

def books (className : String) : Database :=
  (library className).databases.headD { name := "" }

def finalizedBooks (className : String) : Database :=
  (Database.finalize settleLimit .builtin (.plain .generic) (books className)).state

/-- The library is built and finalized. -/
structure Finalizes (className : String) : Prop where
  built : (build .builtin .empty none (libraryTree className) ()).result = .ok (library className)
  inDatabases : books className ∈ (library className).databases
  gives : (Database.finalize settleLimit .builtin (.plain .generic)).Gives (books className)
    [.table "book" "timestampable", .table "book" "archivable"] (finalizedBooks className)

theorem finalizes_bookArchive : Finalizes "BookArchive" where
  built := eq_ok_getD (by decide +kernel)
  inDatabases := by decide +kernel
  gives := ⟨by decide +kernel, rfl⟩

theorem rendered_code_refers_library : Finalizes "BookArchive" ∧ ∃ t ∈ (finalizedBooks "BookArchive").tables,
    ∃ b ∈ t.behaviors, ∃ c ∈ t.behaviors, (∃ created updated, Timestampable.Refers t b created updated) ∧
      ∃ a className, (finalizedBooks "BookArchive").table? "book_archive" = some a ∧
        Archivable.Refers (books "BookArchive") t c a className ∧ className = a.codeName := by
  have hruns := finalizes_bookArchive
  obtain ⟨t, ht, b, hb, c, hc, htimes, harchives, hname⟩ : ∃ t ∈ (finalizedBooks "BookArchive").tables,
      ∃ b ∈ t.behaviors, ∃ c ∈ t.behaviors, b.name = "timestampable" ∧ c.name = "archivable" ∧
        Archivable.archiveName c t.name = "book_archive" := by decide +kernel
  have hrefers := rendered_code_refers hruns.built hruns.inDatabases hruns.gives t ht
  obtain ⟨a, className, ha, hrefersTo⟩ := (hrefers c hc).2 harchives
  rw [hname] at ha
  have haname : a.name = "book_archive" := by simpa using List.find?_some ha
  have hgiven : ((books "BookArchive").table? "book_archive").map (·.ownCodeName) =
      some (some (Text.studlyCase "book_archive")) := by decide +kernel
  refine ⟨hruns, t, ht, b, hb, c, hc, (hrefers b hb).1 htimes, a, className, ha, hrefersTo, ?_⟩
  refine hrefersTo.className_eq_iff.mpr fun u hu own hown => ?_
  rw [haname] at hu ⊢
  rw [hu, Option.map_some, hown] at hgiven
  exact Option.some.inj (Option.some.inj hgiven)

/-- The class that is rendered is not the one of the archive. -/
theorem archive_class_differs : Finalizes "OldBooks" ∧ ∃ t ∈ (finalizedBooks "OldBooks").tables,
    ∃ b ∈ t.behaviors, b.name = "archivable" ∧
      Archivable.objectCode.render "pre_delete" b t = some "self.archive_into::<BookArchive>()?;" ∧
      ((finalizedBooks "OldBooks").table? (Archivable.archiveName b t.name)).map (·.codeName) = some "OldBooks" := by
  refine ⟨⟨eq_ok_getD (by decide +kernel), by decide +kernel, by decide +kernel, rfl⟩, ?_⟩
  decide +kernel

end Schema

end Schemata
