import Schemata.Proofs.Names
import Schemata.Proofs.TableEdits

/-!
# How databases grow

Finalizing keeps the tables of a database at their positions and lets each of them grow, so names mean
the same before and after. A step for the table at one position changes no other table but in its back
edges (`Database.GrowsAt`).
-/

namespace Schemata.Database

/-! ### Positions -/

theorem findIdx?_key {α κ : Type} [DecidableEq κ] (key : α → κ) (k : κ) (l : List α) :
    l.findIdx? (fun a => key a == k) = (l.map key).findIdx? (· == k) := by
  rw [List.findIdx?_map]
  rfl

/-- Positions depend on the names of the tables alone. -/
theorem position?_congr {d e : Database} (hn : e.tableNames = d.tableNames)
    (hq : e.tables.map (·.qualifiedName) = d.tables.map (·.qualifiedName)) (name : String) :
    e.position? name = d.position? name := by
  unfold tableNames at hn
  unfold position?
  rw [findIdx?_key Table.name, findIdx?_key Table.qualifiedName, hn, hq, ← findIdx?_key, ← findIdx?_key]

theorem position?_lt {d : Database} {name : String} {pos : Nat} (h : d.position? name = some pos) :
    pos < d.tables.length := by
  unfold position? at h
  rcases Option.or_eq_some_iff.mp h with h | ⟨-, h⟩
  · exact (List.findIdx?_eq_some_iff_getElem.mp h).1
  · exact (List.findIdx?_eq_some_iff_getElem.mp h).1

theorem resolve?_lt {d : Database} {k : ForeignKey} {pos : Nat} (h : d.resolve? k = some pos) :
    pos < d.tables.length := by
  unfold resolve? at h
  rcases Option.or_eq_some_iff.mp h with h | ⟨-, h⟩
  · exact position?_lt h
  · obtain ⟨schema, -, h⟩ := Option.bind_eq_some_iff.mp h
    exact position?_lt h

@[simp] theorem resolve_eq_ok {d : Database} {own target : Nat} {k : ForeignKey} :
    d.resolve own k = .ok target ↔ d.resolve? k = some target := by
  unfold resolve
  cases d.resolve? k with
  | none => simp
  | some pos => simp

/-! ### Growth -/

/-- `e` is `d` after a part of its finalization: each table has grown in its place. -/
structure Grows (d e : Database) : Prop where
  rest : { e with tables := [] } = { d with tables := [] }
  tables : List.Forall₂ Table.Grows d.tables e.tables

namespace Grows
variable {d e f : Database}

theorem refl (d : Database) : d.Grows d where
  rest := rfl
  tables := List.forall₂_same.mpr fun t _ => .refl t

theorem trans (h : d.Grows e) (h' : e.Grows f) : d.Grows f where
  rest := h'.rest.trans h.rest
  tables := forall₂_trans Table.Grows.trans h.tables h'.tables

theorem length (h : d.Grows e) : e.tables.length = d.tables.length :=
  h.tables.length_eq.symm

theorem tableNames (h : d.Grows e) : e.tableNames = d.tableNames :=
  map_eq_of_forall₂ h.tables fun _ _ ht => ht.name

theorem resolve? (h : d.Grows e) (k : ForeignKey) : e.resolve? k = d.resolve? k := by
  have hq : e.tables.map (·.qualifiedName) = d.tables.map (·.qualifiedName) :=
    map_eq_of_forall₂ h.tables fun _ _ ht => ht.qualifiedName
  unfold Database.resolve?
  simp only [position?_congr h.tableNames hq]

theorem nameSpace (h : d.Grows e) : e.nameSpace = d.nameSpace := by
  have := congrArg Database.nameSpace h.rest
  exact this

theorem vendor (h : d.Grows e) : e.vendor = d.vendor := by
  have := congrArg Database.vendor h.rest
  exact this

theorem behaviors (h : d.Grows e) : e.behaviors = d.behaviors := by
  have := congrArg Database.behaviors h.rest
  exact this

theorem distinctNames (h : d.Grows e) (hd : d.DistinctNames) : e.DistinctNames where
  tables := h.tableNames ▸ hd.tables
  inTables := fun u hu => by
    obtain ⟨i, hi⟩ := List.getElem?_of_mem hu
    obtain ⟨t, ht, hg⟩ := forall₂_getElem? h.tables hi
    have hdt := hd.inTables t (List.mem_of_getElem? ht)
    exact ⟨hg.distinct hdt.columns, hg.keyNames ▸ hdt.foreignKeys⟩

end Grows

/-- `e` is `d` after a step for the table at `pos`: other tables have changed in their back edges only. -/
structure GrowsAt (pos : Nat) (d e : Database) : Prop where
  grows : d.Grows e
  others : ∀ i ≠ pos, e.tables[i]?.map Table.clearReferrers = d.tables[i]?.map Table.clearReferrers

namespace GrowsAt
variable {pos : Nat} {d e f : Database}

theorem refl (pos : Nat) (d : Database) : GrowsAt pos d d :=
  ⟨.refl d, fun _ _ => rfl⟩

theorem trans (h : GrowsAt pos d e) (h' : GrowsAt pos e f) : GrowsAt pos d f :=
  ⟨h.grows.trans h'.grows, fun i hi => (h'.others i hi).trans (h.others i hi)⟩

/-- Another table than the one at the position, before the step. -/
theorem other (h : GrowsAt pos d e) {i : Nat} (hi : i ≠ pos) {u : Table} (hu : e.tables[i]? = some u) :
    ∃ t, d.tables[i]? = some t ∧ t.Grows u ∧ u.clearReferrers = t.clearReferrers := by
  obtain ⟨t, ht, hg⟩ := forall₂_getElem? h.grows.tables hu
  refine ⟨t, ht, hg, ?_⟩
  have := h.others i hi
  rw [hu, ht] at this
  exact Option.some.inj this

/-- A table replaced by one that it grows into. -/
theorem of_set {t u : Table} (ht : d.tables[pos]? = some t) (hg : t.Grows u) :
    GrowsAt pos d { d with tables := d.tables.set pos u } where
  grows := ⟨rfl, forall₂_set Table.Grows.refl ht hg⟩
  others := fun i hi => by
    show ((d.tables.set pos u)[i]?).map Table.clearReferrers = _
    rw [List.getElem?_set_ne hi.symm]

/-- A table changed in its back edges only may stand at any position. -/
theorem of_edges {i : Nat} {t u : Table} (ht : d.tables[i]? = some t) (hu : u.clearReferrers = t.clearReferrers)
    (pos : Nat) : GrowsAt pos d { d with tables := d.tables.set i u } where
  grows := (of_set ht (.of_bare (by rw [Table.bare, hu, ← Table.bare]))).grows
  others := fun j _ => by
    show ((d.tables.set i u)[j]?).map Table.clearReferrers = _
    by_cases hij : i = j
    · subst hij
      rw [List.getElem?_set_self (List.getElem?_eq_some_iff.mp ht).1, ht, Option.map_some, Option.map_some, hu]
    · rw [List.getElem?_set_ne hij]

end GrowsAt

/-! ### Steps for one table -/

section Steps
variable {pos : Nat} {d e : Database} {w : Unit}

theorem gives_editAt {c : Edit Table Unit} : (editAt pos c).Gives d w e ↔
    d.tables[pos]? = none ∧ e = d ∨
      ∃ t u, d.tables[pos]? = some t ∧ c.Gives t () u ∧ e = { d with tables := d.tables.set pos u } := by
  simp only [editAt, Change.gives_within, Change.gives_atPosition]
  constructor
  · rintro ⟨ts, ⟨hn, rfl⟩ | ⟨t, u, ht, hc, rfl⟩, rfl⟩
    · exact Or.inl ⟨hn, rfl⟩
    · exact Or.inr ⟨t, u, ht, hc, rfl⟩
  · rintro (⟨hn, rfl⟩ | ⟨t, u, ht, hc, rfl⟩)
    · exact ⟨_, Or.inl ⟨hn, rfl⟩, rfl⟩
    · exact ⟨_, Or.inr ⟨t, u, ht, hc, rfl⟩, rfl⟩

/-- An edit that succeeds changes the table at the position and nothing else. -/
theorem gives_editAt_of_getElem? {c : Edit Table Unit} {t : Table} (ht : d.tables[pos]? = some t) :
    (editAt pos c).Gives d w e ↔ ∃ u, c.Gives t () u ∧ e = { d with tables := d.tables.set pos u } := by
  rw [gives_editAt, ht]
  constructor
  · rintro (⟨h, -⟩ | ⟨t', u, h, hc, rfl⟩)
    · cases h
    · cases h
      exact ⟨u, hc, rfl⟩
  · rintro ⟨u, hc, rfl⟩
    exact Or.inr ⟨t, u, rfl, hc, rfl⟩

theorem editAt_self {c : Edit Table Unit} {t : Table} (ht : d.tables[pos]? = some t) (hc : c.Gives t () t) :
    (editAt pos c).Gives d w d := by
  refine (gives_editAt_of_getElem? ht).mpr ⟨t, hc, ?_⟩
  rw [← List.getElem?_eq_some_iff.mp ht |>.2, List.set_getElem_self]

@[simp] theorem gives_editAt_warnWithoutKey : (editAt pos Table.warnWithoutKey).Gives d w e ↔ e = d := by
  cases ht : d.tables[pos]? with
  | none => simp [gives_editAt, ht]
  | some t =>
    rw [gives_editAt_of_getElem? ht]
    simp only [Table.gives_warnWithoutKey, exists_eq_left]
    rw [← (List.getElem?_eq_some_iff.mp ht).2, List.set_getElem_self]

theorem GrowsAt.of_editAt {c : Edit Table Unit} (hc : ∀ t u, c.Gives t () u → t.Grows u)
    (h : (editAt pos c).Gives d w e) : GrowsAt pos d e := by
  rcases gives_editAt.mp h with ⟨-, rfl⟩ | ⟨t, u, ht, hu, rfl⟩
  · exact .refl pos _
  · exact .of_set ht (hc t u hu)

end Steps

end Schemata.Database
