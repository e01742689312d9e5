import Schemata.Proofs.DatabaseGrowth
import Schemata.Proofs.Settle

/-!
# Marks of behaviors

A behavior is looked up by its id, so only the first one of an id can be marked. A behavior that has run
stays marked, one that waits goes on waiting until its own run, and one behind another of its id stays
unmarked for ever (`Behavior.Shadowed`). All this holds whatever hooks attach (`Database.Attaches`).
-/

namespace Schemata

/-! ### Lists of behaviors -/

namespace Behavior
variable {bs cs : List Behavior} {id : String}

/-- The behavior of an id has run. -/
def Executed (bs : List Behavior) (id : String) : Prop :=
  ∃ b, bs.find? (·.id == id) = some b ∧ b.executed = true

/-- The behavior of an id has not run. -/
def Waiting (bs : List Behavior) (id : String) : Prop :=
  ∃ b, bs.find? (·.id == id) = some b ∧ b.executed = false

/-- Behind the first behavior of an id there is one that has not run. -/
def Shadowed (bs : List Behavior) (id : String) : Prop :=
  ∃ b ∈ bs.eraseP (·.id == id), b.id = id ∧ b.executed = false

/-- The behaviors with the first one of an id marked. -/
def markFirst (id : String) (bs : List Behavior) : List Behavior :=
  modifyFirst (·.id == id) ({ · with executed := true }) bs

theorem Waiting.not_executed (h : Waiting bs id) : ¬Executed bs id := by
  obtain ⟨b, hb, hw⟩ := h
  rintro ⟨c, hc, he⟩
  rw [hb] at hc
  cases hc
  rw [hw] at he
  cases he

/-! More behaviors at the end -/

theorem Executed.of_prefix (h : Executed bs id) (hpre : bs <+: cs) : Executed cs id := by
  obtain ⟨b, hb, he⟩ := h
  exact ⟨b, hpre.find?_eq_some hb, he⟩

theorem Waiting.of_prefix (h : Waiting bs id) (hpre : bs <+: cs) : Waiting cs id := by
  obtain ⟨b, hb, he⟩ := h
  exact ⟨b, hpre.find?_eq_some hb, he⟩

theorem Shadowed.of_prefix (h : Shadowed bs id) (hpre : bs <+: cs) : Shadowed cs id := by
  obtain ⟨b, hb, rfl, he⟩ := h
  obtain ⟨new, rfl⟩ := hpre
  refine ⟨b, ?_, rfl, he⟩
  rw [List.eraseP_append_left (a := b) (by simp) new (List.mem_of_mem_eraseP hb)]
  exact List.mem_append_left new hb

/-! One behavior marked -/

theorem find?_markFirst_self (id : String) (bs : List Behavior) :
    (markFirst id bs).find? (·.id == id) = (bs.find? (·.id == id)).map ({ · with executed := true }) :=
  find?_modifyFirst (f := fun b : Behavior => { b with executed := true }) (fun _ => rfl) bs

theorem find?_markFirst_of_ne {i : String} (h : id ≠ i) (bs : List Behavior) :
    (markFirst i bs).find? (·.id == id) = bs.find? (·.id == id) := by
  refine find?_modifyFirst_of_disjoint (fun b hb => ?_) bs
  have hbi : b.id = i := by simpa using hb
  simp [hbi, h.symm]

theorem Waiting.markFirst (h : Waiting bs id) : Executed (markFirst id bs) id := by
  obtain ⟨b, hb, -⟩ := h
  exact ⟨{ b with executed := true }, by rw [find?_markFirst_self, hb]; rfl, rfl⟩

theorem Waiting.markFirst_of_ne {i : String} (h : Waiting bs id) (hi : id ≠ i) :
    Waiting (Behavior.markFirst i bs) id := by
  obtain ⟨b, hb, hw⟩ := h
  exact ⟨b, by rw [find?_markFirst_of_ne hi, hb], hw⟩

theorem Executed.markFirst (h : Executed bs id) (i : String) : Executed (markFirst i bs) id := by
  obtain ⟨b, hb, he⟩ := h
  by_cases hi : id = i
  · subst hi
    exact ⟨{ b with executed := true }, by rw [find?_markFirst_self, hb]; rfl, rfl⟩
  · exact ⟨b, by rw [find?_markFirst_of_ne hi, hb], he⟩

theorem Shadowed.markFirst (h : Shadowed bs id) (i : String) : Shadowed (markFirst i bs) id := by
  obtain ⟨b, hb, rfl, he⟩ := h
  refine ⟨b, ?_, rfl, he⟩
  by_cases hi : b.id = i
  · -- The mark falls on the first behavior of the id, which is not `b`.
    rw [← hi, Behavior.markFirst,
      eraseP_modifyFirst (f := fun c : Behavior => { c with executed := true }) (fun _ => rfl)]
    exact hb
  · rw [Behavior.markFirst, eraseP_modifyFirst_of_disjoint]
    · exact mem_modifyFirst hb (by simpa using hi)
    · intro c hc
      have hci : c.id = i := by simpa using hc
      simp [hci, Ne.symm hi]

/-! Behaviors that are not shadowed -/

theorem Shadowed.exists_pending (h : Shadowed bs id) : ∃ b ∈ bs, b.executed = false ∧ b.id = id := by
  obtain ⟨b, hb, hid, he⟩ := h
  exact ⟨b, List.mem_of_mem_eraseP hb, he, hid⟩

theorem waiting_of_pending (h : ¬Shadowed bs id) {b : Behavior} (hb : b ∈ bs) (he : b.executed = false)
    (hid : b.id = id) : Waiting bs id := by
  induction bs with
  | nil => cases hb
  | cons c bs ih =>
    by_cases hc : c.id = id
    · rcases List.mem_cons.mp hb with rfl | hb
      · exact ⟨b, by simp [hid], he⟩
      · exact absurd ⟨b, by simpa [hc] using hb, hid, he⟩ h
    · have hb' : b ∈ bs := by
        rcases List.mem_cons.mp hb with rfl | hb
        · exact absurd hid hc
        · exact hb
      have hbs : ¬Shadowed bs id := fun ⟨b', hb', h'⟩ => h ⟨b', by simp [hc, hb'], h'⟩
      obtain ⟨w, hw, hwe⟩ := ih hbs hb'
      exact ⟨w, by simpa [hc] using hw, hwe⟩

theorem nodup_pending (h : ∀ id, ¬Shadowed bs id) : ((bs.filter (!·.executed)).map (·.id)).Nodup := by
  induction bs with
  | nil => exact List.nodup_nil
  | cons c bs ih =>
    have hbs : ∀ id, ¬Shadowed bs id := fun id ⟨b, hb, hid, he⟩ => h id ⟨b, by
      by_cases hc : c.id = id
      · simpa [hc] using List.mem_of_mem_eraseP hb
      · simp [hc, hb], hid, he⟩
    by_cases hc : c.executed = true
    · simpa [hc] using ih hbs
    · have hfirst : c.id ∉ (bs.filter (!·.executed)).map (·.id) := fun hmem => by
        obtain ⟨b, hb, hid⟩ := List.mem_map.mp hmem
        obtain ⟨hb, he⟩ := List.mem_filter.mp hb
        exact h c.id ⟨b, by simpa using hb, hid, by simpa using he⟩
      simpa [hc] using List.nodup_cons.mpr ⟨hfirst, ih hbs⟩

end Behavior

/-! ### Behaviors of a database and its tables -/

namespace HookRun

/-- The table that carries the behavior, none for the database. -/
def owner : HookRun → Option String
  | .database _ => none
  | .table name _ => some name

def id : HookRun → String
  | .database id => id
  | .table _ id => id

theorem eq_of_owner_of_id {j k : HookRun} (howner : k.owner = j.owner) (hid : k.id = j.id) : k = j := by
  cases j <;> cases k <;> simp_all [owner, id]

end HookRun

namespace Database
variable {d e f : Database} {k : HookRun} {Q : List Behavior → String → Prop} {w : Unit}

/-- The behaviors of the database or of the table of a name. -/
def behaviorsOf? (d : Database) : Option String → Option (List Behavior)
  | none => some d.behaviors
  | some name => (d.table? name).map (·.behaviors)

/-- `Q` holds of the behaviors among which the one of a run is looked up. -/
def Holds (d : Database) (Q : List Behavior → String → Prop) (k : HookRun) : Prop :=
  ∃ bs, d.behaviorsOf? k.owner = some bs ∧ Q bs k.id

theorem holds_database {id : String} : d.Holds Q (.database id) ↔ Q d.behaviors id := by
  simp [Holds, HookRun.owner, HookRun.id, behaviorsOf?]

theorem holds_table {name id : String} :
    d.Holds Q (.table name id) ↔ ∃ t, d.table? name = some t ∧ Q t.behaviors id := by
  simp [Holds, HookRun.owner, HookRun.id, behaviorsOf?]

theorem behaviorsOf?_mark (k : HookRun) (d : Database) (owner : Option String) :
    (d.mark k).behaviorsOf? owner =
      if owner = k.owner then (d.behaviorsOf? owner).map (Behavior.markFirst k.id) else d.behaviorsOf? owner := by
  cases k with
  | database id => cases owner <;> rfl
  | table name id =>
    cases owner with
    | none => rfl
    | some other =>
      simp only [HookRun.owner, HookRun.id, behaviorsOf?, mark, modifyTable, table?, Option.some.injEq]
      by_cases hname : other = name
      · subst hname
        rw [if_pos rfl, find?_modifyFirst, Option.map_map, Option.map_map]
        · rfl
        · exact fun _ => rfl
      · rw [if_neg hname, find?_modifyFirst_of_disjoint]
        intro t ht
        have hn : t.name = name := by simpa using ht
        simp [Table.modifyBehavior, hn, Ne.symm hname]

/-! ### What hooks may do -/

/-- `e` is `d` with more behaviors at the end of each list and more tables after the others, of new
    names where names are distinct. Nothing is removed or renamed; all else is left open. -/
structure Attaches (d e : Database) : Prop where
  own : d.behaviors <+: e.behaviors
  tables : ∀ (pos : Nat) t, d.tables[pos]? = some t →
    ∃ u, e.tables[pos]? = some u ∧ u.name = t.name ∧ t.behaviors <+: u.behaviors
  names : d.tableNames.Nodup → e.tableNames.Nodup

theorem Attaches.refl (d : Database) : d.Attaches d where
  own := List.prefix_refl _
  tables := fun _ t ht => ⟨t, ht, rfl, List.prefix_refl _⟩
  names := id

theorem Attaches.trans (h : d.Attaches e) (h' : e.Attaches f) : d.Attaches f where
  own := h.own.trans h'.own
  tables := fun pos t ht => by
    obtain ⟨u, hu, hname, hpre⟩ := h.tables pos t ht
    obtain ⟨v, hv, hname', hpre'⟩ := h'.tables pos u hu
    exact ⟨v, hv, hname'.trans hname, hpre.trans hpre'⟩
  names := h'.names ∘ h.names

/-- Tables that are replaced by others of their names, with more behaviors. -/
theorem Attaches.of_forall₂ (hown : d.behaviors <+: e.behaviors)
    (h : List.Forall₂ (fun t u : Table => u.name = t.name ∧ t.behaviors <+: u.behaviors) d.tables e.tables) :
    d.Attaches e where
  own := hown
  tables := fun _ _ ht => getElem?_of_forall₂ h ht
  names := fun hd => by
    have hnames : e.tableNames = d.tableNames := map_eq_of_forall₂ h fun _ _ htu => htu.1
    rwa [hnames]

theorem Attaches.behaviorsOf? (h : d.Attaches e) {owner : Option String} {bs : List Behavior}
    (hb : d.behaviorsOf? owner = some bs) : ∃ cs, e.behaviorsOf? owner = some cs ∧ bs <+: cs := by
  cases owner with
  | none =>
    cases hb
    exact ⟨e.behaviors, rfl, h.own⟩
  | some name =>
    obtain ⟨t, ht, rfl⟩ := Option.map_eq_some_iff.mp hb
    obtain ⟨u, hu, -, hpre⟩ := find?_of_getElem? (q := (·.name == name)) h.tables (fun t u htu => by rw [htu.1]) ht
    exact ⟨u.behaviors, by rw [Database.behaviorsOf?, table?, hu]; rfl, hpre⟩

theorem Attaches.holds (h : d.Attaches e) (hQ : ∀ {bs cs id}, Q bs id → bs <+: cs → Q cs id) (hk : d.Holds Q k) :
    e.Holds Q k := by
  obtain ⟨bs, hbs, hq⟩ := hk
  obtain ⟨cs, hcs, hpre⟩ := h.behaviorsOf? hbs
  exact ⟨cs, hcs, hQ hq hpre⟩

theorem attaches_spread {b : Behavior} (h : (spread b).Gives d w e) : d.Attaches e := by
  obtain ⟨us, rfl, hus⟩ := gives_spread h
  refine .of_forall₂ (List.prefix_refl _) (hus.imp fun t u htu => ?_)
  rcases htu with rfl | ⟨rfl, -⟩
  · exact ⟨rfl, List.prefix_refl _⟩
  · exact ⟨rfl, List.prefix_append _ _⟩

theorem attaches_addBehavior {b : Behavior} (h : d.addBehavior b = .ok e) : d.Attaches e := by
  unfold addBehavior at h
  cases ha : Behavior.attach (.database d.name) d.behaviors { b with table := none } with
  | error err =>
    rw [ha] at h
    cases h
  | ok bs =>
    rw [ha] at h
    cases h
    refine .of_forall₂ ?_ (List.forall₂_same.mpr fun t _ => ⟨rfl, List.prefix_refl _⟩)
    rw [(Behavior.attach_eq_ok.mp ha).2]
    exact List.prefix_append _ _

theorem attaches_addTable {t : Table} (h : d.addTable t = .ok e) : d.Attaches e := by
  unfold addTable at h
  split at h
  · cases h
  · rename_i hfree
    cases h
    refine ⟨List.prefix_refl _, fun pos u hu => ⟨u, ?_, rfl, List.prefix_refl _⟩, fun hd => ?_⟩
    · exact (List.getElem?_append_left (List.getElem?_eq_some_iff.mp hu).1).trans hu
    · exact tableNames_append hd (by simpa using hfree)

/-- An edit of one table that keeps its name and removes no behavior. -/
theorem attaches_editAt {pos : Nat} {c : Edit Table Unit} (h : (editAt pos c).Gives d w e)
    (hc : ∀ t u, c.Gives t () u → u.name = t.name ∧ t.behaviors <+: u.behaviors) : d.Attaches e := by
  rcases gives_editAt.mp h with ⟨-, rfl⟩ | ⟨t, u, ht, hu, rfl⟩
  · exact .refl _
  · exact .of_forall₂ (List.prefix_refl _) (forall₂_set (fun _ => ⟨rfl, List.prefix_refl _⟩) ht (hc t u hu))

/-! ### A mark -/

theorem Holds.mark (j : HookRun) (hQ : ∀ {bs id i}, Q bs id → Q (Behavior.markFirst i bs) id) (hk : d.Holds Q k) :
    (d.mark j).Holds Q k := by
  obtain ⟨bs, hbs, hq⟩ := hk
  rw [Holds, behaviorsOf?_mark, hbs]
  split
  · exact ⟨_, rfl, hQ hq⟩
  · exact ⟨_, rfl, hq⟩

theorem Holds.mark_self (hk : d.Holds Behavior.Waiting k) : (d.mark k).Holds Behavior.Executed k := by
  obtain ⟨bs, hbs, hw⟩ := hk
  rw [Holds, behaviorsOf?_mark, hbs, if_pos rfl]
  exact ⟨_, rfl, hw.markFirst⟩

theorem Holds.mark_of_ne {j : HookRun} (hk : d.Holds Behavior.Waiting k) (hj : k ≠ j) :
    (d.mark j).Holds Behavior.Waiting k := by
  obtain ⟨bs, hbs, hw⟩ := hk
  rw [Holds, behaviorsOf?_mark, hbs]
  split
  · rename_i howner
    exact ⟨_, rfl, hw.markFirst_of_ne fun hid => hj (HookRun.eq_of_owner_of_id howner hid)⟩
  · exact ⟨_, rfl, hw⟩

theorem tableNames_mark (k : HookRun) (d : Database) : (d.mark k).tableNames = d.tableNames := by
  cases k with
  | database id => rfl
  | table name id =>
    exact map_modifyFirst (f := (·.modifyBehavior id ({ · with executed := true }))) (g := Table.name)
      (fun _ => rfl) d.tables

/-! ### Along all the runs -/

/-- Behaviors that have run stay marked, and those that are shadowed stay so. -/
structure Advances (d e : Database) : Prop where
  executed : ∀ k, d.Holds Behavior.Executed k → e.Holds Behavior.Executed k
  shadowed : ∀ k, d.Holds Behavior.Shadowed k → e.Holds Behavior.Shadowed k
  names : d.tableNames.Nodup → e.tableNames.Nodup

theorem Advances.refl (d : Database) : d.Advances d :=
  ⟨fun _ => id, fun _ => id, id⟩

theorem Advances.trans (h : d.Advances e) (h' : e.Advances f) : d.Advances f :=
  ⟨fun k => h'.executed k ∘ h.executed k, fun k => h'.shadowed k ∘ h.shadowed k, h'.names ∘ h.names⟩

theorem Attaches.advances (h : d.Attaches e) : d.Advances e where
  executed := fun _ => h.holds Behavior.Executed.of_prefix
  shadowed := fun _ => h.holds Behavior.Shadowed.of_prefix
  names := h.names

theorem advances_mark (k : HookRun) (d : Database) : d.Advances (d.mark k) where
  executed := fun _ => Holds.mark k fun h => h.markFirst _
  shadowed := fun _ => Holds.mark k fun h => h.markFirst _
  names := fun hd => by rwa [tableNames_mark]

end Database

theorem Registry.HooksObey.settles {r : Registry} (hr : r.HooksObey Database.Attaches) :
    r.Settles Database.Advances where
  database := fun hhook h => (hr.database hhook h).advances
  table := fun hhook h => (hr.table hhook h).advances
  refl := .refl
  trans := .trans
  spread := fun h => (Database.attaches_spread h).advances
  mark := Database.advances_mark

end Schemata
