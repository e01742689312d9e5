import Schemata.Proofs.Records
import Schemata.Proofs.Shorthand

/-!
# Edits of records

Where one field of a record is set, replaced or taken out, as a member of an object or as an item of an array, the
same record is read but for the part that this field is read into (`RecordKind.Part`).
-/

namespace Schemata

variable {α : Type}

/-! ### Edits -/

namespace RecordKind

variable {k : RecordKind α} {name : String} {v old j j' : Json} {a b : α}

/-- The value of a field is replaced. -/
inductive Replaces (k : RecordKind α) (name : String) (old new : Json) : Json → Json → Prop where
  | member (before after : List (String × Json)) (key : String) (here : k.fieldName? key = some name) :
      Replaces k name old new (.obj (before ++ (key, old) :: after)) (.obj (before ++ (key, new) :: after))
  | item (before after : List Json) (here : (k.fields[before.length]?).map (·.name) = some name) :
      Replaces k name old new (.arr (before ++ old :: after)) (.arr (before ++ new :: after))

/-- A field is set: in place of the value that it has, or, where an object does not have it, at any place. -/
inductive Sets (k : RecordKind α) (name : String) (v : Json) : Json → Json → Prop where
  | inPlace {old j j' : Json} (h : k.Replaces name old v j j') : Sets k name v j j'
  | anew (before after : List (String × Json)) (here : k.fieldName? name = some name)
      (unset : name ∉ k.names (.obj (before ++ after))) :
      Sets k name v (.obj (before ++ after)) (.obj (before ++ (name, v) :: after))

/-- Fields are set one after another. -/
inductive SetsAll (k : RecordKind α) : List (String × Json) → Json → Json → Prop where
  | nil (j : Json) : SetsAll k [] j j
  | cons {e : String × Json} {es : List (String × Json)} {j j₁ j' : Json} (head : k.Sets e.1 e.2 j j₁)
      (tail : SetsAll k es j₁ j') : SetsAll k (e :: es) j j'

/-- A field is taken out. In an array it leaves a null, unless it is the last one. -/
inductive Drops (k : RecordKind α) (name : String) : Json → Json → Prop where
  | member (before after : List (String × Json)) (key : String) (old : Json) (here : k.fieldName? key = some name) :
      Drops k name (.obj (before ++ (key, old) :: after)) (.obj (before ++ after))
  | last (before : List Json) (old : Json) (here : (k.fields[before.length]?).map (·.name) = some name) :
      Drops k name (.arr (before ++ [old])) (.arr before)
  | blank {old j j' : Json} (h : k.Replaces name old .null j j') : Drops k name j j'

theorem setsAll_append {es fs : List (String × Json)} :
    k.SetsAll (es ++ fs) j j' ↔ ∃ j₁, k.SetsAll es j j₁ ∧ k.SetsAll fs j₁ j' := by
  induction es generalizing j with
  | nil =>
    constructor
    · exact fun h => ⟨j, .nil j, h⟩
    · rintro ⟨_, ⟨⟩, h⟩
      exact h
  | cons e es ih =>
    constructor
    · rintro (_ | ⟨hhead, htail⟩)
      obtain ⟨j₁, hes, hfs⟩ := ih.mp htail
      exact ⟨j₁, .cons hhead hes, hfs⟩
    · rintro ⟨j₁, _ | ⟨hhead, htail⟩, hfs⟩
      exact .cons hhead (ih.mpr ⟨j₁, htail, hfs⟩)

theorem entries_members {before after : List (String × Json)} {key : String} (here : k.fieldName? key = some name) :
    k.entries (.obj (before ++ (key, v) :: after)) =
      k.entries (.obj before) ++ (name, v) :: k.entries (.obj after) := by
  simp [entries, here]

/-- The fields before a position of an array, the one there and those behind it. -/
theorem entries_items {before : List Json} (here : (k.fields[before.length]?).map (·.name) = some name)
    (after : List Json) :
    k.entries (.arr (before ++ after)) = k.entries (.arr before) ++
      (name :: (k.fields.drop (before.length + 1)).map (·.name)).zip after := by
  obtain ⟨fld, hfld, rfl⟩ := Option.map_eq_some_iff.mp here
  obtain ⟨hlt, rfl⟩ := List.getElem?_eq_some_iff.mp hfld
  have hnames : k.fields.map (·.name) = (k.fields.take before.length).map (·.name) ++
      (k.fields[before.length].name :: (k.fields.drop (before.length + 1)).map (·.name)) := by
    rw [← List.map_cons, ← List.drop_eq_getElem_cons hlt, ← List.map_append, List.take_append_drop]
  have hlength : ((k.fields.take before.length).map (·.name)).length = before.length := by
    rw [List.length_map, List.length_take, Nat.min_eq_left (Nat.le_of_lt hlt)]
  have hsplit : ∀ rest, k.entries (.arr (before ++ rest)) = ((k.fields.take before.length).map (·.name)).zip before ++
      (k.fields[before.length].name :: (k.fields.drop (before.length + 1)).map (·.name)).zip rest := fun rest => by
    rw [entries, hnames, List.zip_append hlength]
  have hbefore := hsplit []
  rw [List.append_nil, List.zip_nil_right, List.append_nil] at hbefore
  rw [hsplit, hbefore]

/-- An edit in one value keeps the fields before it and behind it. -/
theorem Replaces.entries_eq (h : k.Replaces name old v j j') :
    (k.Fits j → k.Fits j') ∧
      ∃ es fs, k.entries j = es ++ (name, old) :: fs ∧ k.entries j' = es ++ (name, v) :: fs := by
  cases h with
  | member before after key here => exact ⟨id, _, _, entries_members here, entries_members here⟩
  | item before after here =>
    refine ⟨fun hfits => ?_, _, _, entries_items here _, entries_items here _⟩
    simpa only [Fits, List.length_append, List.length_cons] using hfits

theorem Replaces.left (h : k.Replaces name old v j j') : k.Replaces name old old j j := by
  cases h with
  | member before after key here => exact .member before after key here
  | item before after here => exact .item before after here

end RecordKind

/-! ### Parts of a record -/

/-- A part of a record that one field is read into, and that no other field has to do with. For a field of a structure,
    all but the last of these hold by computation. -/
structure RecordKind.Part (k : RecordKind α) (β : Type) where
  name : String
  read : Shape β
  get : α → β
  set : β → α → α
  put_name : ∀ j a, k.put name j a = read j >>= fun b => pure (set b a) := by intros; rfl
  get_set : ∀ b a, get (set b a) = b := by intros; rfl
  set_get : ∀ a, set (get a) a = a := by intros; rfl
  set_set : ∀ b c a, set b (set c a) = set b a := by intros; rfl
  put_other : ∀ other, other ≠ name → ∀ j a b, (k.put other j a).map (set b) = k.put other j (set b a)

namespace RecordKind.Part

variable {β : Type} {k : RecordKind α} {p : k.Part β} {j j' v old : Json} {a : α} {b : β}

/-- What fields are read into does not depend on a part that none of them is. -/
theorem putAll_set {es : List (String × Json)} {c : α} (hes : p.name ∉ es.map (·.1)) (hc : k.putAll a es = .ok c) :
    k.putAll (p.set b a) es = .ok (p.set b c) := by
  induction es generalizing a with
  | nil => exact Except.ok.inj hc ▸ rfl
  | cons e es ih =>
    obtain ⟨hne, hrest⟩ := not_or.mp fun hmem => hes (List.mem_cons.mpr hmem)
    obtain ⟨x, hx, hc⟩ := bind_eq_ok.mp hc
    refine bind_eq_ok.mpr ⟨p.set b x, ?_, ih hrest hc⟩
    rw [← p.put_other e.1 (Ne.symm hne), hx]
    rfl

theorem put_eq_ok {c : α} : k.put p.name v a = .ok c ↔ ∃ b, p.read v = .ok b ∧ c = p.set b a := by
  rw [p.put_name, bind_eq_ok]
  exact exists_congr fun b => and_congr_right fun _ => pure_eq_ok.trans eq_comm

theorem get_put_other {name : String} {c : α} (hname : name ≠ p.name) (h : k.put name j a = .ok c) :
    p.get c = p.get a := by
  have hput := p.put_other name hname j a (p.get a)
  rw [p.set_get, h] at hput
  rw [← Except.ok.inj hput]
  exact p.get_set (p.get a) c

/-- A part is as in the record of defaults, or it is read from a value. -/
theorem get_keeps {I : β → Prop} (hk : (k.fields.map (·.name)).Nodup) (blank : I (p.get k.blank))
    (read : ∀ j b, p.read j = .ok b → I b) (h : k.shape j = .ok a) : I (p.get a) := by
  refine shape_keeps (I := fun a => I (p.get a)) hk blank (fun name j a c hput ha => ?_) h
  by_cases hname : name = p.name
  · subst hname
    obtain ⟨b, hb, rfl⟩ := put_eq_ok.mp hput
    exact (p.get_set b a).symm ▸ read j b hb
  · exact (get_put_other hname hput).symm ▸ ha

/-! What is read after an edit -/

theorem reads_replaced (h : k.Reads j a) (hr : k.Replaces p.name old v j j') (hv : p.read v = .ok b) :
    k.Reads j' (p.set b a) := by
  obtain ⟨hfits, es, fs, hj, hj'⟩ := hr.entries_eq
  have hnames : k.names j' = k.names j := by simp [names, hj, hj']
  have hdistinct := h.distinct
  rw [names, hj, List.map_append, List.map_cons, List.nodup_middle, List.nodup_cons] at hdistinct
  obtain ⟨x, hx, hrest⟩ := putAll_append.mp (hj ▸ h.puts)
  obtain ⟨y, hy, hrest⟩ := bind_eq_ok.mp hrest
  obtain ⟨c, -, rfl⟩ := put_eq_ok.mp hy
  refine ⟨hfits h.fits, hnames ▸ h.distinct, ?_, hnames ▸ h.complete⟩
  rw [hj']
  refine putAll_append.mpr ⟨x, hx, bind_eq_ok.mpr ⟨p.set b x, put_eq_ok.mpr ⟨b, hv, rfl⟩, ?_⟩⟩
  rw [← p.set_set b c x]
  exact putAll_set (fun hmem => hdistinct.1 (List.mem_append_right _ hmem)) hrest

theorem reads_inserted {es fs : List (String × Json)} (h : k.Reads j a) (hfits : k.Fits j')
    (hj : k.entries j = es ++ fs) (hj' : k.entries j' = es ++ (p.name, v) :: fs) (hnew : p.name ∉ k.names j)
    (hv : p.read v = .ok b) : k.Reads j' (p.set b a) := by
  have hdistinct := h.distinct
  have hcomplete := h.complete
  rw [names, hj, List.map_append] at hdistinct hnew
  simp only [names, hj, List.map_append] at hcomplete
  obtain ⟨x, hx, hrest⟩ := putAll_append.mp (hj ▸ h.puts)
  refine ⟨hfits, ?_, ?_, fun fld hfld hreq => ?_⟩
  · rw [names, hj', List.map_append, List.map_cons, List.nodup_middle, List.nodup_cons]
    exact ⟨hnew, hdistinct⟩
  · rw [hj']
    refine putAll_append.mpr ⟨x, hx, bind_eq_ok.mpr ⟨p.set b x, put_eq_ok.mpr ⟨b, hv, rfl⟩, ?_⟩⟩
    exact putAll_set (fun hmem => hnew (List.mem_append_right _ hmem)) hrest
  · rw [names, hj', List.map_append, List.map_cons, List.mem_append, List.mem_cons]
    exact (List.mem_append.mp (hcomplete fld hfld hreq)).imp_right .inr

/-- A part whose field is taken out is as in the record of defaults. -/
theorem reads_removed {es fs : List (String × Json)} (h : k.Reads j a) (hfits : k.Fits j')
    (hj : k.entries j = es ++ (p.name, old) :: fs) (hj' : k.entries j' = es ++ fs)
    (hopt : ∀ fld ∈ k.fields, fld.name = p.name → fld.required = false) :
    k.Reads j' (p.set (p.get k.blank) a) := by
  have hdistinct := h.distinct
  have hcomplete := h.complete
  rw [names, hj, List.map_append, List.map_cons, List.nodup_middle, List.nodup_cons, List.mem_append, not_or]
    at hdistinct
  simp only [names, hj, List.map_append, List.map_cons, List.mem_append, List.mem_cons] at hcomplete
  obtain ⟨⟨hes, hfs⟩, hnodup⟩ := hdistinct
  obtain ⟨x, hx, hrest⟩ := putAll_append.mp (hj ▸ h.puts)
  obtain ⟨y, hy, hrest⟩ := bind_eq_ok.mp hrest
  obtain ⟨c, -, rfl⟩ := put_eq_ok.mp hy
  -- None of the fields before it has put the part yet.
  have hunset : p.set (p.get k.blank) x = x := by
    have hsame := putAll_set hes hx (b := p.get k.blank)
    rw [p.set_get, hx] at hsame
    exact (Except.ok.inj hsame).symm
  refine ⟨hfits, ?_, ?_, fun fld hfld hreq => ?_⟩
  · rwa [names, hj', List.map_append]
  · rw [hj']
    have hlater := putAll_set hfs hrest (b := p.get k.blank)
    rw [p.set_set, hunset] at hlater
    exact putAll_append.mpr ⟨x, hx, hlater⟩
  · rw [names, hj', List.map_append, List.mem_append]
    rcases hcomplete fld hfld hreq with hmem | hmem | hmem
    · exact .inl hmem
    · rw [hopt fld hfld hmem] at hreq
      cases hreq
    · exact .inr hmem

section Shape
variable (hk : (k.fields.map (·.name)).Nodup)
include hk

theorem shape_replaced (h : k.shape j = .ok a) (hr : k.Replaces p.name old v j j') (hv : p.read v = .ok b) :
    k.shape j' = .ok (p.set b a) :=
  (shape_eq_ok hk).mpr (reads_replaced ((shape_eq_ok hk).mp h) hr hv)

/-- A part is what is read from the value of its field. -/
theorem read_old (h : k.shape j = .ok a) (hr : k.Replaces p.name old v j j') : p.read old = .ok (p.get a) := by
  obtain ⟨-, es, fs, hj, -⟩ := hr.entries_eq
  obtain ⟨x, -, hrest⟩ := putAll_append.mp (hj ▸ ((shape_eq_ok hk).mp h).puts)
  obtain ⟨y, hy, -⟩ := bind_eq_ok.mp hrest
  obtain ⟨c, hc, -⟩ := put_eq_ok.mp hy
  have hsame := shape_replaced hk h hr.left hc
  rw [h] at hsame
  have hget := p.get_set c a
  rw [← Except.ok.inj hsame] at hget
  rw [hc, hget]

theorem shape_set (h : k.shape j = .ok a) (hs : k.Sets p.name v j j') (hv : p.read v = .ok b) :
    k.shape j' = .ok (p.set b a) := by
  cases hs with
  | inPlace hr => exact shape_replaced hk h hr hv
  | anew before after here unset =>
    refine (shape_eq_ok hk).mpr (reads_inserted ((shape_eq_ok hk).mp h) trivial ?_ (entries_members here) unset hv)
    exact List.filterMap_append

theorem shape_dropped (h : k.shape j = .ok a) (hd : k.Drops p.name j j') (hnull : p.read .null = .ok (p.get k.blank))
    (hopt : ∀ fld ∈ k.fields, fld.name = p.name → fld.required = false) :
    k.shape j' = .ok (p.set (p.get k.blank) a) := by
  have hreads := (shape_eq_ok hk).mp h
  cases hd with
  | member before after key old here =>
    exact (shape_eq_ok hk).mpr
      (reads_removed hreads trivial (entries_members here) List.filterMap_append hopt)
  | last before old here =>
    have hfits : k.Fits (.arr before) := by
      refine Nat.le_trans ?_ hreads.fits
      rw [List.length_append]
      exact Nat.le_add_right _ _
    have hj : k.entries (.arr (before ++ [old])) = k.entries (.arr before) ++ [(p.name, old)] := by
      rw [entries_items here, List.zip_cons_cons, List.zip_nil_right]
    exact (shape_eq_ok hk).mpr (reads_removed hreads hfits hj (List.append_nil _).symm hopt)
  | blank hr => exact shape_replaced hk h hr hnull

/-- A part that may be missing takes over the value of `m`, where it has room and `m` has a value. -/
theorem shape_taken {q : k.Part (Option β)} {write : β → Json} {room : Bool} {m b : Option β} (h : k.shape j = .ok a)
    (hs : k.SetsAll (if room then m.toList.map fun b => (q.name, write b) else []) j j')
    (hwrite : ∀ b ∈ m, q.read (write b) = .ok (some b)) (hroom : room = true → q.get a = none)
    (hb : (if room then m else q.get a) = b) : k.shape j' = .ok (q.set b a) := by
  subst hb
  have hsame : q.set (q.get a) a = a := q.set_get a
  cases room with
  | false =>
    obtain ⟨⟩ := hs
    simpa [hsame] using h
  | true =>
    cases m with
    | none =>
      obtain ⟨⟩ := hs
      rw [hroom rfl] at hsame
      simpa [hsame] using h
    | some b =>
      obtain _ | ⟨hhead, ⟨⟩⟩ := hs
      exact shape_set hk h hhead (hwrite b rfl)

end Shape

end RecordKind.Part

/-! ### Edits that change what is read -/

/-- Where a value is edited by `R`, what is read from it changes by `Q`. -/
def Shape.Carries (s : Shape α) (R : Json → Json → Prop) (Q : α → α → Prop) : Prop :=
  ∀ ⦃j j' : Json⦄ ⦃a : α⦄, R j j' → s j = .ok a → ∃ a', s j' = .ok a' ∧ Q a a'

theorem Shape.Carries.list {s : Shape α} {R : Json → Json → Prop} {Q : α → α → Prop} (h : s.Carries R Q)
    (hQ : ∀ a, Q a a) : (list s).Carries (Itemwise R) (List.Forall₂ Q) := by
  intro j j' as hR has
  cases hR with
  | same => exact ⟨as, has, List.forall₂_same.mpr fun a _ => hQ a⟩
  | @items xs ys hitems =>
    replace has : xs.mapM s = .ok as := has
    show ∃ bs, ys.mapM s = .ok bs ∧ List.Forall₂ Q as bs
    induction hitems generalizing as with
    | nil =>
      obtain rfl := pure_eq_ok.mp has
      exact ⟨[], rfl, .nil⟩
    | cons hxy _ ih =>
      simp only [List.mapM_cons, bind_eq_ok, pure_eq_ok] at has
      obtain ⟨a, ha, as, hrest, rfl⟩ := has
      obtain ⟨b, hb, hQab⟩ := h hxy ha
      obtain ⟨bs, hbs, hQ⟩ := ih hrest
      refine ⟨b :: bs, ?_, .cons hQab hQ⟩
      simp only [List.mapM_cons, bind_eq_ok, pure_eq_ok]
      exact ⟨b, hb, bs, hbs, rfl⟩

/-- A record whose value of one field is edited changes in the part that is read from it. -/
theorem RecordKind.Part.carries {β : Type} {k : RecordKind α} {p : k.Part β} {R : Json → Json → Prop} {Q : β → β → Prop}
    (hk : (k.fields.map (·.name)).Nodup) (h : p.read.Carries R Q) {old new j j' : Json} {a : α}
    (hr : k.Replaces p.name old new j j') (hR : R old new) (ha : k.shape j = .ok a) :
    ∃ b, k.shape j' = .ok (p.set b a) ∧ Q (p.get a) b := by
  obtain ⟨b, hb, hQ⟩ := h hR (p.read_old hk ha hr)
  exact ⟨b, p.shape_replaced hk ha hr hb, hQ⟩

end Schemata
