import Schemata.Proofs.Assembly
import Schemata.Proofs.Records

/-!
# Which tables are emitted

A table that an include brings along may only be referred to when the include says so, which it does
unless it is told otherwise. So only those tables are emitted whose files were reached first by includes
that are not for reference only.
-/

namespace Schemata

/-! ### What an include says about references -/

namespace IncludeDecl

/-- The text of an include does not say whether its tables may only be referred to. -/
def isSilent : Json → Bool
  | .obj ms => ms.all (·.1 != "referenceOnly")
  | .arr items => items.length ≤ 1
  | _ => true

theorem fieldName?_of_ne {key name : String} (hkey : key ≠ "referenceOnly") (h : record.fieldName? key = some name) :
    name = "filename" := by
  simp only [RecordKind.fieldName?, record, RecordField.needed, RecordField.defaulted, List.find?_cons] at h
  by_cases hfile : "filename" = key
  · simpa [hfile, eq_comm] using h
  · simp [hfile, Ne.symm hkey] at h

theorem referenceOnly_put_filename {j : Json} {i i' : IncludeDecl} (h : record.put "filename" j i = .ok i') :
    i'.referenceOnly = i.referenceOnly := by
  obtain ⟨text, -, hpure⟩ := bind_eq_ok.mp h
  cases hpure
  rfl

/-- A silent include sets no field but its file. -/
theorem name_of_mem_entries {j : Json} (hsilent : isSilent j = true) : ∀ e ∈ record.entries j, e.1 = "filename" := by
  cases j with
  | obj ms =>
    intro e he
    obtain ⟨m, hm, hfield⟩ := List.mem_filterMap.mp he
    obtain ⟨name, hname, rfl⟩ := Option.map_eq_some_iff.mp hfield
    have hkey : m.1 ≠ "referenceOnly" := by simpa using List.all_eq_true.mp hsilent m hm
    exact fieldName?_of_ne hkey hname
  | arr items =>
    match items with
    | [] => exact fun _ => nofun
    | [file] => exact List.forall_mem_singleton.mpr rfl
    | _ :: _ :: _ => simp [isSilent] at hsilent
  | null | bool | num | str => exact fun _ => nofun

/-- By default an include is for reference only. -/
theorem referenceOnly_of_silent {j : Json} {i : IncludeDecl} (h : record.shape j = .ok i)
    (hsilent : isSilent j = true) : i.referenceOnly = true := by
  have hreads := (RecordKind.shape_eq_ok (by decide)).mp h
  refine RecordKind.putAll_keeps (I := fun i => i.referenceOnly = true) (fun e he i i' hput hi => ?_) hreads.puts rfl
  rw [name_of_mem_entries hsilent e he] at hput
  exact (referenceOnly_put_filename hput).trans hi

end IncludeDecl

/-! ### What is emitted -/

namespace Schema

variable {l : Library}

/-- The only database of a schema has the marks of the files in the order of the first visits, its tables without a
    mark are emitted in their order, and each of these is from the first file or from one that was reached first by
    includes that are not for reference only. -/
structure MarkedByWay (l : Library) (start : Option Path) (decl : SchemaDecl) (s : Schema) (vs : List Visited)
    (d : Database) : Prop where
  visits : FirstVisits l start decl vs
  database : s.databases = [d]
  marks : d.marks = decl.marks ++ vs.flatMap Visited.marks
  emittable : s.emittableTables = (d.tables.filter (!·.referenceOnly)).map fun t => (d, t)
  emitted : ∀ e ∈ s.emittableTables,
    (∃ t ∈ decl.tables, t.name = e.2.name ∧ t.referenceOnly = false) ∨
      ∃ u ∈ vs, (∃ t ∈ u.decl.tables, t.name = e.2.name ∧ t.referenceOnly = false) ∧
        ∀ i ∈ u.way, i.referenceOnly = false

theorem MarkedByWay.of_marks {start : Option Path} {decl : SchemaDecl} {s : Schema} {vs : List Visited} {d : Database}
    (hvisits : FirstVisits l start decl vs) (hd : s.databases = [d])
    (hmarks : d.marks = decl.marks ++ vs.flatMap Visited.marks) : MarkedByWay l start decl s vs d := by
  have hemittable : s.emittableTables = (d.tables.filter (!·.referenceOnly)).map fun t => (d, t) := by
    simp [emittableTables, hd]
  refine ⟨hvisits, hd, hmarks, hemittable, fun e he => ?_⟩
  rw [hemittable] at he
  obtain ⟨t, ht, rfl⟩ := List.mem_map.mp he
  obtain ⟨ht, hfree⟩ := List.mem_filter.mp ht
  have hmark : (t.name, false) ∈ d.marks := List.mem_map.mpr ⟨t, ht, by simpa [Table.mark] using hfree⟩
  rw [hmarks] at hmark
  rcases List.mem_append.mp hmark with hmark | hmark
  · obtain ⟨own, hown, heq⟩ := List.mem_map.mp hmark
    obtain ⟨hname, hfalse⟩ := Prod.mk.inj heq
    exact .inl ⟨own, hown, hname, hfalse⟩
  · obtain ⟨u, hu, hmark⟩ := List.mem_flatMap.mp hmark
    obtain ⟨own, hown, heq⟩ := List.mem_map.mp hmark
    obtain ⟨hname, hfalse⟩ := Prod.mk.inj heq
    obtain ⟨hfalse, hway⟩ := Bool.or_eq_false_iff.mp hfalse
    exact .inr ⟨u, hu, ⟨own, hown, hname, hfalse⟩, fun i hi => by simpa using List.any_eq_false.mp hway i hi⟩

/-- Whether a table may only be referred to follows the includes through which its file was reached first. -/
theorem marked_by_way (r : Registry) (l : Library) :
    (∀ start j s, (build r l start j ()).result = .ok s →
      ∃ decl vs d, SchemaDecl.record.shape j = .ok decl ∧ MarkedByWay l start decl s vs d) ∧
      (∀ p s, (load r l p ()).result = .ok s →
        ∃ decl vs d, loadDecl l p = .ok decl ∧ MarkedByWay l (some p) decl s vs d) ∧
      ∀ j i, IncludeDecl.record.shape j = .ok i → IncludeDecl.isSilent j = true → i.referenceOnly = true := by
  refine ⟨?_, ?_, fun j i => IncludeDecl.referenceOnly_of_silent⟩
  · intro start j s h
    obtain ⟨decl, vs, d, hdecl, hvisits, hd, -, hmarks⟩ := visits_of_build h
    exact ⟨decl, vs, d, hdecl, .of_marks hvisits hd hmarks⟩
  · intro p s h
    obtain ⟨decl, vs, d, hdecl, hvisits, hd, -, hmarks⟩ := visits_of_load h
    exact ⟨decl, vs, d, hdecl, .of_marks hvisits hd hmarks⟩

theorem marked_by_way_market :
    ∃ decl vs d s, (load {} (.ofFiles market) ⟨"shop/main.json"⟩ ()).result = .ok s ∧
      loadDecl (.ofFiles market) ⟨"shop/main.json"⟩ = .ok decl ∧
      MarkedByWay (.ofFiles market) (some ⟨"shop/main.json"⟩) decl s vs d ∧
      d.marks =
        [("shop", false), ("order", false), ("line", false), ("article", false), ("shelf", true), ("coin", true)] ∧
      (s.emittableTables.map (·.2.name)) = ["shop", "order", "line", "article"] := by
  have hrun : (load {} (.ofFiles market) ⟨"shop/main.json"⟩ ()).result.toOption.map
      (fun s => (s.databases.map (·.marks), s.emittableTables.map (·.2.name))) =
      some ([[("shop", false), ("order", false), ("line", false), ("article", false), ("shelf", true), ("coin", true)]],
        ["shop", "order", "line", "article"]) := by decide +kernel
  cases hs : (load {} (.ofFiles market) ⟨"shop/main.json"⟩ ()).result with
  | error e =>
    rw [hs] at hrun
    cases hrun
  | ok s =>
    rw [hs] at hrun
    obtain ⟨decl, vs, d, hdecl, hmarked⟩ := (marked_by_way {} (.ofFiles market)).2.1 ⟨"shop/main.json"⟩ s hs
    obtain ⟨hmarks, hemittable⟩ := Prod.mk.inj (Option.some.inj hrun)
    rw [hmarked.database] at hmarks
    exact ⟨decl, vs, d, s, rfl, hdecl, hmarked, List.head_eq_of_cons_eq hmarks, hemittable⟩

end Schema

end Schemata
