import Mathlib.Data.List.Forall2
import Mathlib.Data.List.Nodup
import Schemata.Lookup

/-!
# Facts about look-ups

Lists that agree item by item, and what becomes of a list when the first item that answers to a name
is changed.
-/

namespace Schemata

variable {α β κ : Type}

/-! ### Lists that agree item by item -/

section Forall₂
variable {R : α → β → Prop}

theorem getElem?_of_forall₂ {l : List α} {m : List β} (h : List.Forall₂ R l m) {i : Nat} {a : α}
    (ha : l[i]? = some a) : ∃ b, m[i]? = some b ∧ R a b := by
  induction h generalizing i with
  | nil => simp at ha
  | @cons x y l m hxy _ ih =>
    cases i with
    | zero =>
      obtain rfl : x = a := by simpa using ha
      exact ⟨y, rfl, hxy⟩
    | succ i => exact ih (by simpa using ha)

theorem forall₂_getElem? {l : List α} {m : List β} (h : List.Forall₂ R l m) {i : Nat} {b : β}
    (hb : m[i]? = some b) : ∃ a, l[i]? = some a ∧ R a b := by
  obtain ⟨a, ha, hab⟩ := getElem?_of_forall₂ (List.Forall₂.flip (R := fun b a => R a b) h) hb
  exact ⟨a, ha, hab⟩

theorem forall₂_trans {l m n : List α} {R : α → α → Prop} (trans : ∀ {a b c}, R a b → R b c → R a c)
    (h : List.Forall₂ R l m) (h' : List.Forall₂ R m n) : List.Forall₂ R l n := by
  induction h generalizing n with
  | nil => exact h'
  | cons hab _ ih =>
    cases h' with
    | cons hbc htail => exact .cons (trans hab hbc) (ih htail)

theorem map_eq_of_forall₂ {γ : Type} {l : List α} {m : List β} {f : α → γ} {g : β → γ}
    (h : List.Forall₂ R l m) (hfg : ∀ a b, R a b → g b = f a) : m.map g = l.map f := by
  induction h with
  | nil => rfl
  | cons hab _ ih => rw [List.map_cons, List.map_cons, hfg _ _ hab, ih]

/-- Replacing one item by a related one relates the lists. -/
theorem forall₂_set {R : α → α → Prop} (refl : ∀ a, R a a) {l : List α} {i : Nat} {a b : α}
    (ha : l[i]? = some a) (hab : R a b) : List.Forall₂ R l (l.set i b) := by
  induction l generalizing i with
  | nil => simp at ha
  | cons x l ih =>
    cases i with
    | zero =>
      obtain rfl : x = a := by simpa using ha
      exact .cons hab (List.forall₂_same.mpr fun y _ => refl y)
    | succ i => exact .cons (refl x) (ih (by simpa using ha))

/-- A look-up in a list that agrees with the first one as far as that goes. -/
theorem find?_of_getElem? {l : List α} {m : List β} {p : α → Bool} {q : β → Bool}
    (h : ∀ (pos : Nat) a, l[pos]? = some a → ∃ b, m[pos]? = some b ∧ R a b) (hpq : ∀ a b, R a b → q b = p a) {a : α}
    (ha : l.find? p = some a) : ∃ b, m.find? q = some b ∧ R a b := by
  induction l generalizing m with
  | nil => cases ha
  | cons x l ih =>
    obtain ⟨y, hy, hxy⟩ := h 0 x rfl
    cases m with
    | nil => cases hy
    | cons y' m =>
      cases hy
      rw [List.find?_cons] at ha ⊢
      rw [hpq x y hxy]
      cases hx : p x with
      | true =>
        rw [hx] at ha
        cases ha
        exact ⟨y, rfl, hxy⟩
      | false =>
        rw [hx] at ha
        exact ih (fun pos a ha => h (pos + 1) a ha) ha

end Forall₂

theorem find?_eq_some_iff_findIdx? {p : α → Bool} {l : List α} {a : α} :
    l.find? p = some a ↔ ∃ pos, l.findIdx? p = some pos ∧ l[pos]? = some a := by
  rw [List.find?_eq_some_iff_getElem]
  constructor
  · rintro ⟨hp, i, hi, rfl, hbefore⟩
    refine ⟨i, List.findIdx?_eq_some_iff_getElem.mpr ⟨hi, hp, fun j hj => ?_⟩, List.getElem?_eq_getElem hi⟩
    simpa using hbefore j hj
  · rintro ⟨i, hpos, ha⟩
    obtain ⟨hi, hp, hbefore⟩ := List.findIdx?_eq_some_iff_getElem.mp hpos
    obtain ⟨_, rfl⟩ := List.getElem?_eq_some_iff.mp ha
    exact ⟨hp, i, hi, rfl, fun j hj => by simpa using hbefore j hj⟩

theorem getElem?_set_cases {l : List α} {i j : Nat} {a b : α} (h : (l.set i a)[j]? = some b) :
    j = i ∧ b = a ∨ j ≠ i ∧ l[j]? = some b := by
  by_cases hj : i = j
  · subst hj
    rw [List.getElem?_set, if_pos rfl] at h
    split at h
    · exact Or.inl ⟨rfl, (Option.some.inj h).symm⟩
    · cases h
  · rw [List.getElem?_set_ne hj] at h
    exact Or.inr ⟨Ne.symm hj, h⟩

theorem set_eq_modify {l : List α} {i : Nat} {a : α} {f : α → α} (ha : l[i]? = some a) :
    l.modify i f = l.set i (f a) := by
  obtain ⟨hlt, rfl⟩ := List.getElem?_eq_some_iff.mp ha
  apply List.ext_getElem?
  intro j
  rw [List.getElem?_modify, List.getElem?_set]
  by_cases h : i = j
  · subst h
    simp [hlt]
  · simp [h]

/-- Where names are distinct, an item is found by its name. -/
theorem find?_key [DecidableEq κ] {key : α → κ} {l : List α} (hl : (l.map key).Nodup) {a : α} (ha : a ∈ l) :
    l.find? (fun b => key b == key a) = some a := by
  induction l with
  | nil => cases ha
  | cons b l ih =>
    rw [List.map_cons, List.nodup_cons] at hl
    by_cases hb : key b = key a
    · rcases List.mem_cons.mp ha with rfl | ha
      · simp
      · exact absurd (List.mem_map.mpr ⟨a, ha, hb.symm⟩) hl.1
    · have ha' : a ∈ l := by
        rcases List.mem_cons.mp ha with rfl | ha
        · exact absurd rfl hb
        · exact ha
      rw [List.find?_cons, beq_eq_false_iff_ne.mpr hb]
      exact ih hl.2 ha'

theorem find?_eq_some_iff_of_nodup [DecidableEq κ] {key : α → κ} {k : κ} {l : List α} (hl : (l.map key).Nodup) {a : α} :
    l.find? (fun b => key b == k) = some a ↔ a ∈ l ∧ key a = k := by
  constructor
  · intro h
    exact ⟨List.mem_of_find?_eq_some h, by simpa using List.find?_some h⟩
  · rintro ⟨ha, rfl⟩
    exact find?_key hl ha

/-! ### Names that are free -/

theorem not_mem_of_any_eq_false {f : α → String} {l : List α} {name : String} (h : l.any (f · == name) = false) :
    name ∉ l.map f := by
  intro hmem
  obtain ⟨a, ha, rfl⟩ := List.mem_map.mp hmem
  simpa using List.any_eq_false.mp h a ha

/-- An item of a new name may join at the end. -/
theorem nodup_append_singleton {f : α → κ} {l : List α} {a : α} (hl : (l.map f).Nodup) (ha : f a ∉ l.map f) :
    ((l ++ [a]).map f).Nodup := by
  rw [List.map_append, List.map_singleton, ← List.concat_eq_append]
  exact List.Nodup.concat ha hl

theorem forall_mem_append_singleton {P : α → Prop} {l : List α} {a : α} (hl : ∀ b ∈ l, P b) (ha : P a) :
    ∀ b ∈ l ++ [a], P b :=
  List.forall_mem_append.mpr ⟨hl, List.forall_mem_singleton.mpr ha⟩

/-- Where two lists agree under `f`, what `f` gives is the same for the items of both. -/
theorem forall_of_map_eq {f : α → β} {l m : List α} (h : m.map f = l.map f) {P : β → Prop} (hl : ∀ a ∈ l, P (f a)) :
    ∀ a ∈ m, P (f a) := by
  intro a ha
  obtain ⟨b, hb, heq⟩ := List.mem_map.mp (h ▸ List.mem_map_of_mem ha)
  exact heq ▸ hl b hb

/-! ### Changing the first item -/

section ModifyFirst
variable {p : α → Bool} {f : α → α}

theorem map_modifyFirst {g : α → β} (hg : ∀ a, g (f a) = g a) (l : List α) :
    (modifyFirst p f l).map g = l.map g := by
  induction l with
  | nil => rfl
  | cons a l ih =>
    unfold modifyFirst
    split
    · simp [hg]
    · simp [ih]

theorem forall₂_modifyFirst {R : α → α → Prop} (refl : ∀ a, R a a) {l : List α}
    (step : ∀ a ∈ l, p a = true → R a (f a)) : List.Forall₂ R l (modifyFirst p f l) := by
  induction l with
  | nil => exact .nil
  | cons a l ih =>
    unfold modifyFirst
    split
    · rename_i hp
      exact .cons (step a List.mem_cons_self hp) (List.forall₂_same.mpr fun b _ => refl b)
    · exact .cons (refl a) (ih fun b hb => step b (List.mem_cons_of_mem _ hb))

/-- Look-ups by another name do not see the change. -/
theorem find?_modifyFirst_of_disjoint {q : α → Bool} (hq : ∀ a, p a = true → q a = false ∧ q (f a) = false)
    (l : List α) : (modifyFirst p f l).find? q = l.find? q := by
  induction l with
  | nil => rfl
  | cons a l ih =>
    unfold modifyFirst
    split
    · rename_i hp
      simp [(hq a hp).1, (hq a hp).2]
    · simp [List.find?_cons, ih]

/-- A look-up by the same name finds the changed item. -/
theorem find?_modifyFirst (hf : ∀ a, p (f a) = p a) (l : List α) :
    (modifyFirst p f l).find? p = (l.find? p).map f := by
  induction l with
  | nil => rfl
  | cons a l ih =>
    unfold modifyFirst
    split
    · rename_i hp
      simp [hf, hp]
    · rename_i hp
      simp [hp, ih]

theorem mem_modifyFirst {l : List α} {a : α} (ha : a ∈ l) (hp : p a = false) : a ∈ modifyFirst p f l := by
  induction l with
  | nil => cases ha
  | cons b l ih =>
    unfold modifyFirst
    split
    · rename_i hb
      rcases List.mem_cons.mp ha with rfl | ha
      · rw [hp] at hb
        cases hb
      · exact List.mem_cons_of_mem _ ha
    · rcases List.mem_cons.mp ha with rfl | ha
      · exact List.mem_cons_self
      · exact List.mem_cons_of_mem _ (ih ha)

/-- Without the changed item the list is what it was without the first one. -/
theorem eraseP_modifyFirst (hf : ∀ a, p (f a) = p a) (l : List α) : (modifyFirst p f l).eraseP p = l.eraseP p := by
  induction l with
  | nil => rfl
  | cons a l ih =>
    unfold modifyFirst
    split
    · rename_i hp
      rw [List.eraseP_cons_of_pos (hf a ▸ hp), List.eraseP_cons_of_pos hp]
    · rename_i hp
      rw [List.eraseP_cons_of_neg hp, List.eraseP_cons_of_neg hp, ih]

theorem eraseP_modifyFirst_of_disjoint {q : α → Bool} (hq : ∀ a, p a = true → q a = false ∧ q (f a) = false)
    (l : List α) : (modifyFirst p f l).eraseP q = modifyFirst p f (l.eraseP q) := by
  induction l with
  | nil => rfl
  | cons a l ih =>
    by_cases hp : p a = true
    · obtain ⟨hqa, hqf⟩ := hq a hp
      simp [modifyFirst, hp, hqa, hqf]
    · by_cases hqa : q a = true
      · simp [modifyFirst, hp, hqa]
      · simp [modifyFirst, hp, hqa, ih]

/-- Where names are distinct, the first item of a name is the only one. -/
theorem modifyFirst_eq_map [DecidableEq κ] {key : α → κ} {k : κ} {l : List α} (hl : (l.map key).Nodup) :
    modifyFirst (fun a => key a == k) f l = l.map fun a => if key a = k then f a else a := by
  induction l with
  | nil => rfl
  | cons a l ih =>
    rw [List.map_cons, List.nodup_cons] at hl
    unfold modifyFirst
    by_cases ha : key a = k
    · have hrest : l.map (fun a => if key a = k then f a else a) = l := by
        conv_rhs => rw [← List.map_id l]
        refine List.map_congr_left fun b hb => ?_
        have hne : key b ≠ k := fun hbk => hl.1 (List.mem_map.mpr ⟨b, hb, hbk.trans ha.symm⟩)
        simp [hne]
      simp [ha, hrest]
    · simp [ha, ih hl.2]

end ModifyFirst

end Schemata
