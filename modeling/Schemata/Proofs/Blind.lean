import Schemata.Proofs.Complete

/-!
# Edits that do not see back edges

Which back edges a table has while it is worked on depends on the tables before it. Nothing that is done
to a single table reads them: such an edit is `Blind`. It succeeds on a table when it does on the table
without its back edges, and ends in the same table but for back edges.
-/

namespace Schemata.Table
variable {t u v : Table} {α : Type}

/-- The edit makes the same of a table with and without its back edges, but for these. -/
def Blind (c : Edit Table Unit) : Prop :=
  ∀ t v, c.Gives t.bare () v ↔ ∃ u, c.Gives t () u ∧ u.bare = v

/-- A blind edit of a table that differs in its back edges. -/
theorem Blind.gives {c : Edit Table Unit} (hc : Blind c) (h : c.Gives t () u) {t' : Table} (ht : t'.bare = t.bare) :
    ∃ u', c.Gives t' () u' ∧ u'.bare = u.bare := by
  have hbare := (hc t u.bare).mpr ⟨u, h, rfl⟩
  rw [← ht] at hbare
  exact (hc t' u.bare).mp hbare

/-! ### Putting blind edits together -/

namespace Blind

/-- An edit that succeeds when `f` does, and does what `f` does. -/
theorem of_gives {c : Edit Table Unit} {f : Table → Except Error Table} (hc : ∀ t u, c.Gives t () u ↔ f t = .ok u)
    (hf : ∀ t, f t.bare = (f t).map bare) : Blind c := by
  intro t v
  simp only [hc, hf]
  cases f t with
  | error e => simp [Except.map]
  | ok u => simp [Except.map]

/-- An edit that depends on the table at hand, but not on its back edges. -/
theorem of_get {f : Table → Edit Table Unit} (hf : ∀ t, f t.bare = f t) (h : ∀ t, Blind (f t)) :
    Blind (Change.get >>= f) := by
  intro t v
  have hget : ∀ s w, (Change.get >>= f).Gives s () w ↔ (f s).Gives s () w := fun s w => by simp
  simp only [hget, hf]
  exact h t t v

theorem pure : Blind (pure ()) := by
  intro t v
  simp [eq_comm]

theorem report (e : Event) : Blind (Change.report e) := by
  intro t v
  simp [eq_comm]

theorem modify {f : Table → Table} (hf : ∀ t, f t.bare = (f t).bare) : Blind (Change.modify f) := by
  intro t v
  simp [hf, eq_comm]

theorem bind {c c' : Edit Table Unit} (h : Blind c) (h' : Blind c') : Blind (c >>= fun _ => c') := by
  intro t v
  simp only [Change.gives_bind]
  constructor
  · rintro ⟨_, _, hc, hc'⟩
    obtain ⟨u, hu, rfl⟩ := (h t _).mp hc
    obtain ⟨w, hw, rfl⟩ := (h' u v).mp hc'
    exact ⟨w, ⟨(), u, hu, hw⟩, rfl⟩
  · rintro ⟨w, ⟨_, u, hu, hw⟩, rfl⟩
    exact ⟨(), u.bare, (h t _).mpr ⟨u, hu, rfl⟩, (h' u _).mpr ⟨w, hw, rfl⟩⟩

theorem forEach {f : α → Edit Table Unit} (hf : ∀ a, Blind (f a)) (l : List α) : Blind (Change.forEach f l) := by
  induction l with
  | nil => exact pure
  | cons a l ih => exact (hf a).bind ih

end Blind

/-! ### Adding columns and indices -/

theorem bare_addColumn {c : Column} (hc : c.clearReferrers = c) (t : Table) :
    t.bare.addColumn c = (t.addColumn c).map bare := by
  unfold addColumn
  rw [bare_hasColumn]
  split
  · rfl
  · simp [Except.map, bare, clearReferrers, hc]

theorem bare_checkedIndex (t : Table) (kind : IndexKind) (i : Index) :
    t.bare.checkedIndex kind i = t.checkedIndex kind i := by
  simp only [checkedIndex, bare_hasColumn]
  rfl

theorem bare_addIndex (t : Table) (i : Index) : t.bare.addIndex i = (t.addIndex i).map bare := by
  unfold addIndex
  rw [bare_checkedIndex]
  cases t.checkedIndex .index i with
  | error e => rfl
  | ok j => rfl

theorem bare_addMissingIndex (t : Table) (i : Index) : t.bare.addMissingIndex i = (t.addMissingIndex i).map bare := by
  unfold addMissingIndex
  rw [bare_hasIndexOver, bare_addIndex]
  split <;> rfl

/-! ### The edits of finalization -/

theorem blind_addHeavyIndices : Blind addHeavyIndices := by
  refine .of_get (fun t => ?_) fun t => ?_
  · rw [bare_isHeavyIndexing, bare_primaryKeyNames]
  · split
    · exact .forEach (fun names => .of_gives (fun _ _ => gives_addHeavyIndex) fun t => bare_addMissingIndex t _) _
    · exact .pure

theorem blind_dropUnusedIdMethod : Blind dropUnusedIdMethod := by
  refine .of_get (fun t => ?_) fun t => ?_
  · rw [bare_idMethod, bare_hasAutoIncrement]
    rfl
  · split
    · exact .bind (.report _) (.modify fun _ => rfl)
    · exact .pure

theorem blind_completeKey (key : String) (pk : List Column) : Blind (completeKey key pk) := by
  refine .bind (.forEach (fun c => ?_) pk) (.modify fun _ => rfl)
  exact .of_gives (fun _ _ => gives_addImplicitColumn) (bare_addColumn rfl)

theorem blind_addKeyIndices (is : List Index) : Blind (Change.forEach addKeyIndex is) :=
  .forEach (fun i => .of_gives (fun _ _ => gives_addKeyIndex) fun t => bare_addMissingIndex t i) is

end Schemata.Table
