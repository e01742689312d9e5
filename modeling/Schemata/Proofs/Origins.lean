import Schemata.Proofs.Steps

/-!
# Where columns come from

Finalization keeps the columns of a table, and each column that it adds is in the log: a timestamp, or a
column of an implicit key (`Table.Gains`). What else is done to tables leaves their columns as they are,
but for flags and back edges.
-/

namespace Schemata

/-- The log tells that the table got a column of this name. -/
def Adds (table column : String) (es : List Event) : Prop :=
  .addingTimestamp table column ∈ es ∨ .addingImplicitColumn table column ∈ es

theorem Adds.append_left {table column : String} {es : List Event} (h : Adds table column es) (fs : List Event) :
    Adds table column (es ++ fs) :=
  h.imp (List.mem_append_left fs) (List.mem_append_left fs)

theorem Adds.append_right {table column : String} {fs : List Event} (h : Adds table column fs) (es : List Event) :
    Adds table column (es ++ fs) :=
  h.imp (List.mem_append_right es) (List.mem_append_right es)

/-- No archive is added. -/
def AddsNoArchive (es : List Event) : Prop :=
  ∀ source archive, Event.addingArchive source archive ∉ es

namespace Table
variable {t u v : Table} {es fs : List Event}

/-- The columns of a table by their names and domains. -/
def shapes (t : Table) : List (String × Domain) :=
  t.columns.map fun c => (c.name, c.domain)

/-- `u` is `t` with more columns, which the log `es` names. -/
structure Gains (t : Table) (es : List Event) (u : Table) : Prop where
  name : u.name = t.name
  kept : t.shapes ⊆ u.shapes
  origin : ∀ x ∈ u.shapes, x ∈ t.shapes ∨ Adds t.name x.1 es

namespace Gains

theorem of_shapes (hn : u.name = t.name) (hs : u.shapes = t.shapes) (es : List Event) : t.Gains es u where
  name := hn
  kept := hs ▸ List.Subset.refl _
  origin := fun _ hx => Or.inl (hs ▸ hx)

theorem refl (t : Table) (es : List Event) : t.Gains es t :=
  of_shapes rfl rfl es

theorem trans (h : t.Gains es u) (h' : u.Gains fs v) : t.Gains (es ++ fs) v where
  name := h'.name.trans h.name
  kept := List.Subset.trans h.kept h'.kept
  origin := fun x hx => by
    rcases h'.origin x hx with hx | hadds
    · exact (h.origin x hx).imp id fun hadds => hadds.append_left fs
    · rw [h.name] at hadds
      exact Or.inr (hadds.append_right es)

theorem of_extends (h : t.Extends u) (hc : u.columns = t.columns) (es : List Event) : t.Gains es u := by
  refine of_shapes ?_ (by rw [shapes, hc, shapes]) es
  have := congrArg Table.name h.fixed
  exact this

end Gains

@[simp] theorem shapes_clearReferrers (t : Table) : t.clearReferrers.shapes = t.shapes := by
  simp [shapes, clearReferrers, Column.clearReferrers, Function.comp_def]

theorem shapes_link (t : Table) (k : ForeignKey) : (t.link k).shapes = t.shapes := by
  rw [← shapes_clearReferrers, clearReferrers_link, shapes_clearReferrers]

/-- What an edit of one table does to its columns, and that it adds no archive. -/
def Traces (t : Table) (es : List Event) (u : Table) : Prop :=
  t.Gains es u ∧ AddsNoArchive es

theorem traces_trail : Trail Traces where
  refl := fun t => ⟨.refl t [], fun _ _ h => by cases h⟩
  trans := fun {t u v es fs} ⟨h, hn⟩ ⟨h', hn'⟩ => ⟨h.trans h', fun source archive hmem => by
    rcases List.mem_append.mp hmem with hmem | hmem
    · exact hn source archive hmem
    · exact hn' source archive hmem⟩

/-! ### Steps -/

/-- A column comes with the event that names it. -/
theorem gains_addColumn {c : Column} {e : Event}
    (he : e = .addingTimestamp t.name c.name ∨ e = .addingImplicitColumn t.name c.name) (h : t.addColumn c = .ok u) :
    t.Gains [e] u := by
  have hadds : Adds t.name c.name [e] := by
    rcases he with rfl | rfl
    · exact Or.inl (List.mem_singleton_self _)
    · exact Or.inr (List.mem_singleton_self _)
  obtain ⟨-, rfl⟩ := addColumn_eq_ok.mp h
  refine ⟨rfl, ?_, fun x hx => ?_⟩
  · rw [shapes, shapes, List.map_append]
    exact List.subset_append_left _ _
  · rw [shapes, List.map_append, List.mem_append, List.map_singleton, List.mem_singleton] at hx
    rcases hx with hx | rfl
    · exact Or.inl hx
    · exact Or.inr hadds

theorem gains_step (h : Step t es u) : t.Gains es u := by
  cases h with
  | told => exact .refl t _
  | column named added => exact gains_addColumn named added
  | index added =>
    obtain ⟨j, -, rfl⟩ := addIndex_eq_ok.mp added
    exact .of_extends .addIndex rfl []
  | behavior added =>
    obtain ⟨rfl, -⟩ := addBehavior_eq_ok added
    refine .of_shapes ?_ ?_ [] <;> rfl
  | link k => exact .of_shapes (Grows.link t k).name (shapes_link t k) []
  | prepare d =>
    refine .of_shapes ?_ ?_ []
    · rfl
    · exact shapes_clearReferrers t
  | executed | complete | dropIdMethod | refer => refine .of_shapes ?_ ?_ [] <;> rfl

theorem addsNoArchive_step (h : Step t es u) : AddsNoArchive es := by
  intro source archive hmem
  cases h with
  | told other => exact other source archive (List.mem_singleton.mp hmem).symm
  | column named =>
    rw [List.mem_singleton] at hmem
    rcases named with rfl | rfl <;> cases hmem
  | _ => cases hmem

theorem traces_steps (h : Steps Step t es u) : t.Traces es u :=
  h.lift traces_trail fun hstep => ⟨gains_step hstep, addsNoArchive_step hstep⟩

end Table

end Schemata
