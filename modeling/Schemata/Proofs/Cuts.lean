import Mathlib.Data.List.Forall2
import Schemata.Dump

/-!
# Where texts can be cut

A text that is put together from pieces can be taken apart again, from left to right, when it shows where a piece
ends: a run of characters of one kind ends before a character of another kind, and a piece that may be missing is
there when its label is. What may follow a piece is known by its labels.
-/

namespace Schemata

/-! ### Lists -/

section Lists
variable {α β : Type} {p : α → Bool} {as bs rs ss : List α}

/-- Equal lists are equal up to the first item that is not of a kind. -/
theorem append_cut (ha : ∀ x ∈ as, p x = true) (hb : ∀ x ∈ bs, p x = true) (hr : ∀ x ∈ rs.head?, p x = false)
    (hs : ∀ x ∈ ss.head?, p x = false) (h : as ++ rs = bs ++ ss) : as = bs ∧ rs = ss := by
  have hfront : ∀ {xs ys : List α}, (∀ x ∈ xs, p x = true) → (∀ y ∈ ys.head?, p y = false) →
      (xs ++ ys).takeWhile p = xs := by
    intro xs ys hxs hys
    rw [List.takeWhile_append_of_pos hxs]
    cases ys with
    | nil => simp
    | cons y ys => simp [hys y rfl]
  obtain rfl : as = bs := by rw [← hfront ha hr, h, hfront hb hs]
  exact ⟨rfl, List.append_cancel_left h⟩

theorem append_cut_of_forall (ha : ∀ x ∈ as, p x = true) (hb : ∀ x ∈ bs, p x = true) (hr : ∀ x ∈ rs, p x = false)
    (hs : ∀ x ∈ ss, p x = false) (h : as ++ rs = bs ++ ss) : as = bs ∧ rs = ss :=
  append_cut ha hb (fun x hx => hr x (List.mem_of_mem_head? hx)) (fun x hx => hs x (List.mem_of_mem_head? hx)) h

/-- Lists with the same images agree item by item in what an image tells. -/
theorem map_eq_iff_forall₂ {f : α → β} {R : α → α → Prop} {P : α → Prop}
    (hf : ∀ a b, P a → P b → (f a = f b ↔ R a b)) (ha : ∀ a ∈ as, P a) (hb : ∀ b ∈ bs, P b) :
    as.map f = bs.map f ↔ List.Forall₂ R as bs := by
  induction as generalizing bs with
  | nil => cases bs <;> simp
  | cons a as ih =>
    cases bs with
    | nil => simp
    | cons b bs =>
      rw [List.map_cons, List.map_cons, List.cons.injEq, List.forall₂_cons,
        hf a b (ha a List.mem_cons_self) (hb b List.mem_cons_self),
        ih (fun x hx => ha x (List.mem_cons_of_mem _ hx)) (fun x hx => hb x (List.mem_cons_of_mem _ hx))]

/-- Blocks are told apart when the first item of a block is of a kind that stands nowhere else in it. -/
theorem flatMap_eq_iff_map {f : α → List β} {p : β → Bool}
    (hf : ∀ a, ∃ head tail, f a = head :: tail ∧ p head = true ∧ ∀ x ∈ tail, p x = false) :
    as.flatMap f = bs.flatMap f ↔ as.map f = bs.map f := by
  have hnext : ∀ xs : List α, ∀ x ∈ (xs.flatMap f).head?, (!p x) = false := by
    intro xs x hx
    cases xs with
    | nil => cases hx
    | cons a xs =>
      obtain ⟨head, tail, heq, hp, -⟩ := hf a
      rw [List.flatMap_cons, heq] at hx
      cases hx
      rw [hp]
      rfl
  refine ⟨fun h => ?_, fun h => by rw [List.flatMap_def, List.flatMap_def, h]⟩
  induction as generalizing bs with
  | nil =>
    cases bs with
    | nil => rfl
    | cons b bs =>
      obtain ⟨head, tail, heq, -⟩ := hf b
      rw [List.flatMap_cons, heq] at h
      cases h
  | cons a as ih =>
    obtain ⟨head, tail, heq, -, htail⟩ := hf a
    cases bs with
    | nil =>
      rw [List.flatMap_cons, heq] at h
      cases h
    | cons b bs =>
      obtain ⟨head', tail', heq', -, htail'⟩ := hf b
      rw [List.flatMap_cons, List.flatMap_cons, heq, heq', List.cons_append, List.cons_append, List.cons.injEq] at h
      obtain ⟨rfl, hrest⟩ := append_cut (p := fun x => !p x) (by simpa using htail) (by simpa using htail')
        (hnext as) (hnext bs) h.2
      rw [List.map_cons, List.map_cons, heq, heq', h.1, ih hrest]

end Lists

namespace Text

variable {a b r s k l : String} {ks ls : List String} {p : Char → Bool} {c : Char}

/-! ### Labels -/

def begins (k s : String) : Bool :=
  k.toList.isPrefixOf s.toList

/-- No text begins with both labels. -/
def apart (k l : String) : Bool :=
  !begins k l && !begins l k

/-- A text that is empty or begins with one of the labels. -/
def Labelled (ks : List String) (s : String) : Prop :=
  s = "" ∨ ∃ k ∈ ks, begins k s = true

theorem begins_iff : begins k s = true ↔ k.toList <+: s.toList :=
  List.isPrefixOf_iff_prefix

theorem begins_append : begins k (k ++ s) = true := by
  rw [begins_iff, String.toList_append]
  exact List.prefix_append _ _

theorem begins_append_of_begins (h : begins k a = true) : begins k (a ++ r) = true := by
  rw [begins_iff] at h ⊢
  rw [String.toList_append]
  exact h.trans (List.prefix_append _ _)

theorem begins_eq_false (h : begins l s = true) (hkl : apart k l = true) : begins k s = false := by
  rw [Bool.eq_false_iff]
  intro hk
  simp only [apart, Bool.and_eq_true, Bool.not_eq_true', Bool.eq_false_iff, ne_eq, begins_iff] at hkl
  rcases List.prefix_or_prefix_of_prefix (begins_iff.mp hk) (begins_iff.mp h) with hpre | hpre
  · exact hkl.1 hpre
  · exact hkl.2 hpre

theorem ne_of_begins (h : begins k s = true) (hk : k ≠ "") : s ≠ "" := by
  rintro rfl
  exact hk (String.toList_inj.mp (List.prefix_nil.mp (begins_iff.mp h)))

theorem labelled_empty : Labelled ks "" :=
  .inl rfl

/-- Nothing follows the end of a text. -/
theorem labelled_end : Labelled [] "" :=
  labelled_empty

theorem labelled_self : Labelled [k] (k ++ s) :=
  .inr ⟨k, List.mem_singleton_self k, begins_append⟩

/-- Behind a piece that may be missing there may be the labels of what follows. -/
theorem Labelled.append (ha : Labelled ks a) (hr : Labelled ls r) : Labelled (ks ++ ls) (a ++ r) := by
  rcases ha with rfl | ⟨k, hk, hbegins⟩
  · rw [String.empty_append]
    rcases hr with rfl | ⟨l, hl, hbegins⟩
    · exact .inl rfl
    · exact .inr ⟨l, List.mem_append_right _ hl, hbegins⟩
  · exact .inr ⟨k, List.mem_append_left _ hk, begins_append_of_begins hbegins⟩

theorem Labelled.begins_eq_false (h : Labelled ks s) (hk : k ≠ "") (hks : ks.all (apart k) = true) :
    begins k s = false := by
  rcases h with rfl | ⟨l, hl, hbegins⟩
  · rw [Bool.eq_false_iff]
    exact fun hbegins => ne_of_begins hbegins hk rfl
  · exact Text.begins_eq_false hbegins (List.all_eq_true.mp hks l hl)

/-! ### Cuts -/

/-- Whether a run of characters of the kind `p` ends before `k`. -/
def halts (p : Char → Bool) (k : String) : Bool :=
  k.toList.head?.any fun c => !p c

theorem Labelled.head (h : Labelled ks s) (hks : ks.all (halts p) = true) : ∀ c ∈ s.toList.head?, p c = false := by
  intro c hc
  rcases h with rfl | ⟨k, hk, hbegins⟩
  · cases hc
  · obtain ⟨t, ht⟩ := begins_iff.mp hbegins
    have hhalts := List.all_eq_true.mp hks k hk
    rw [halts] at hhalts
    cases hfront : k.toList with
    | nil => simp [hfront] at hhalts
    | cons x xs =>
      rw [← ht, hfront] at hc
      cases hc
      simpa [hfront] using hhalts

/-- A run of characters of a kind is cut before what does not go on with that kind. -/
theorem cut (ha : a.toList.all p = true) (hb : b.toList.all p = true) (hr : Labelled ks r) (hs : Labelled ks s)
    (h : a ++ r = b ++ s) (hks : ks.all (halts p) = true) : a = b ∧ r = s := by
  have hlist := congrArg String.toList h
  rw [String.toList_append, String.toList_append] at hlist
  obtain ⟨hfront, hrest⟩ := append_cut (List.all_eq_true.mp ha) (List.all_eq_true.mp hb) (hr.head hks) (hs.head hks)
    hlist
  exact ⟨String.toList_inj.mp hfront, String.toList_inj.mp hrest⟩

/-- A run of characters of a kind is cut at a mark. -/
theorem cut_at (ha : a.toList.all p = true) (hb : b.toList.all p = true) (h : a ++ (k ++ r) = b ++ (k ++ s))
    (hk : halts p k = true) : a = b ∧ r = s := by
  obtain ⟨hab, hrest⟩ := cut ha hb labelled_self labelled_self h (by simpa using hk)
  exact ⟨hab, (String.append_right_inj k).mp hrest⟩

/-- A piece that may be missing is in both texts or in none, when what follows it has other labels. -/
theorem missing_iff (ha : Labelled [k] a) (hb : Labelled [k] b) (hr : Labelled ks r) (hs : Labelled ks s)
    (hk : k ≠ "") (hks : ks.all (apart k) = true) (h : a ++ r = b ++ s) : a = "" ↔ b = "" := by
  have hmissing : ∀ {a b r s : String}, Labelled ks r → Labelled [k] b → a ++ r = b ++ s → a = "" → b = "" := by
    rintro a b r s hr (hb | ⟨l, hl, hbegins⟩) h rfl
    · exact hb
    · obtain rfl := List.mem_singleton.mp hl
      have hnot := hr.begins_eq_false hk hks
      rw [← String.empty_append (s := r), h, begins_append_of_begins hbegins] at hnot
      cases hnot
  exact ⟨hmissing hr hb h, hmissing hs ha h.symm⟩

/-- The text of a value that may be missing: a label and what is shown of the value. -/
def optionalText {α : Type} (k : String) (f : α → String) : Option α → String
  | none => ""
  | some x => k ++ f x

section Optional
variable {α : Type} {f g : α → String} {x y : Option α}

theorem labelled_optionalText : Labelled [k] (optionalText k f x) := by
  cases x with
  | none => exact labelled_empty
  | some x => exact labelled_self

theorem optionalText_eq_empty_iff (hk : k ≠ "") : optionalText k f x = "" ↔ x = none := by
  cases x with
  | none => simp [optionalText]
  | some x => simp [optionalText, String.append_eq_empty_iff, hk]

/-- Two texts begin with a value each, or both without one. -/
theorem optional_cut (hr : Labelled ks r) (hs : Labelled ks s)
    (h : optionalText k f x ++ r = optionalText k g y ++ s) (hk : k ≠ "") (hks : ks.all (apart k) = true) :
    x = none ∧ y = none ∧ r = s ∨ ∃ a b, x = some a ∧ y = some b ∧ f a ++ r = g b ++ s := by
  have hmissing := missing_iff labelled_optionalText labelled_optionalText hr hs hk hks h
  rw [optionalText_eq_empty_iff hk, optionalText_eq_empty_iff hk] at hmissing
  cases x with
  | none =>
    obtain rfl := hmissing.mp rfl
    exact .inl ⟨rfl, rfl, by simpa [optionalText] using h⟩
  | some a =>
    cases y with
    | none => cases hmissing.mpr rfl
    | some b =>
      refine .inr ⟨a, b, rfl, rfl, ?_⟩
      simpa only [optionalText, String.append_assoc, String.append_right_inj] using h

end Optional

/-! ### Words -/

def isWordChar (c : Char) : Bool :=
  c.isAlphanum || c == '_'

/-- A name: ASCII letters, digits and underscores, at least one. -/
def isWord (s : String) : Bool :=
  s != "" && s.toList.all isWordChar

theorem ne_of_isWord (h : isWord s = true) : s ≠ "" := by
  rw [isWord, Bool.and_eq_true] at h
  exact bne_iff_ne.mp h.1

theorem all_of_isWord (h : isWord s = true) : s.toList.all isWordChar = true :=
  (Bool.and_eq_true_iff.mp h).2

/-- A word ends before anything else than a letter, a digit or an underscore. -/
theorem word_cut (ha : isWord a = true) (hb : isWord b = true) (hr : Labelled ks r) (hs : Labelled ks s)
    (h : a ++ r = b ++ s) (hks : ks.all (halts isWordChar) = true) : a = b ∧ r = s :=
  cut (all_of_isWord ha) (all_of_isWord hb) hr hs h hks

theorem word_cut_at (ha : isWord a = true) (hb : isWord b = true) (h : a ++ (k ++ r) = b ++ (k ++ s))
    (hk : halts isWordChar k = true) : a = b ∧ r = s :=
  cut_at (all_of_isWord ha) (all_of_isWord hb) h hk

theorem word_pair_inj (ha : isWord a = true) (hb : isWord b = true) (hk : halts isWordChar k = true) :
    a ++ k ++ r = b ++ k ++ s ↔ a = b ∧ r = s := by
  rw [String.append_assoc, String.append_assoc]
  exact ⟨fun h => word_cut_at ha hb h hk, fun ⟨hab, hrs⟩ => by rw [hab, hrs]⟩

theorem isWord_repr (n : Nat) : isWord n.repr = true := by
  rw [isWord, Bool.and_eq_true]
  refine ⟨bne_iff_ne.mpr Nat.repr_ne_empty, List.all_eq_true.mpr fun c hc => ?_⟩
  rw [Nat.toList_repr] at hc
  have hdigit := Nat.isDigit_of_mem_toDigits (by decide) (by decide) hc
  simp [isWordChar, Char.isAlphanum, hdigit]

/-! ### Characters that a text lacks -/

def lacks (c : Char) (s : String) : Bool :=
  s.toList.all (· != c)

@[simp] theorem lacks_append : lacks c (a ++ b) = (lacks c a && lacks c b) := by
  rw [lacks, String.toList_append, List.all_append, lacks, lacks]

theorem lacks_of_isWord (h : isWord s = true) (hc : isWordChar c = false) : lacks c s = true := by
  refine List.all_eq_true.mpr fun x hx => bne_iff_ne.mpr ?_
  rintro rfl
  rw [List.all_eq_true.mp (all_of_isWord h) x hx] at hc
  cases hc

theorem lacks_optionalText {α : Type} {f : α → String} {o : Option α}
    (h : ∀ x ∈ o, lacks c k = true ∧ lacks c (f x) = true) : lacks c (optionalText k f o) = true := by
  cases o with
  | none => rfl
  | some x => rw [optionalText, lacks_append, (h x rfl).1, (h x rfl).2, Bool.and_true]

end Text

namespace Dump

open Text

variable {as bs : List String} {c : Char}

/-! ### Lists of texts -/

/-- The texts behind one another, each with the mark `k` before it. -/
def marked (k : String) (texts : List String) : String :=
  String.join (texts.map (k ++ ·))

theorem marked_cons (k a : String) (as : List String) : marked k (a :: as) = k ++ (a ++ marked k as) := by
  rw [marked, List.map_cons, String.join_cons, String.append_assoc, marked]

theorem marked_append (k : String) (as bs : List String) : marked k (as ++ bs) = marked k as ++ marked k bs := by
  rw [marked, List.map_append, String.join_append, marked, marked]

theorem labelled_marked (k : String) (as : List String) : Labelled [k] (marked k as) := by
  cases as with
  | nil => exact labelled_empty
  | cons a as =>
    rw [marked_cons]
    exact labelled_self

theorem lacks_marked (hk : lacks c k = true) (h : ∀ a ∈ as, lacks c a = true) : lacks c (marked k as) = true := by
  induction as with
  | nil => rfl
  | cons a as ih =>
    obtain ⟨ha, has⟩ := List.forall_mem_cons.mp h
    rw [marked_cons, lacks_append, lacks_append, hk, ha, ih has]
    rfl

/-- Texts are taken apart again at a mark that begins with a character they lack. -/
theorem marked_inj (hk : halts (· != c) k = true) (ha : ∀ a ∈ as, lacks c a = true)
    (hb : ∀ b ∈ bs, lacks c b = true) : marked k as = marked k bs ↔ as = bs := by
  have hne : ∀ a as, marked k (a :: as) ≠ "" := by
    intro a as h
    rw [marked_cons, String.append_eq_empty_iff] at h
    rw [h.1] at hk
    cases hk
  refine ⟨fun h => ?_, congrArg (marked k)⟩
  induction as generalizing bs with
  | nil =>
    cases bs with
    | nil => rfl
    | cons b bs => exact absurd h.symm (hne b bs)
  | cons a as ih =>
    cases bs with
    | nil => exact absurd h (hne a as)
    | cons b bs =>
      obtain ⟨ha, has⟩ := List.forall_mem_cons.mp ha
      obtain ⟨hb, hbs⟩ := List.forall_mem_cons.mp hb
      rw [marked_cons, marked_cons, String.append_right_inj] at h
      obtain ⟨rfl, hrest⟩ := cut ha hb (labelled_marked k as) (labelled_marked k bs) h (by simpa using hk)
      rw [ih has hbs hrest]

theorem listed_cons (a : String) (as : List String) : listed (a :: as) = a ++ marked ", " as := by
  induction as generalizing a with
  | nil => simp [listed, marked]
  | cons b as ih => rw [listed, String.intercalate_cons_cons, ← listed, ih, marked_cons, String.append_assoc]

theorem lacks_listed (hmark : lacks c ", " = true) (h : ∀ a ∈ as, lacks c a = true) : lacks c (listed as) = true := by
  cases as with
  | nil => rfl
  | cons a as =>
    obtain ⟨ha, has⟩ := List.forall_mem_cons.mp h
    rw [listed_cons, lacks_append, ha, lacks_marked hmark has]
    rfl

/-- A list of texts is taken apart again at its commas. -/
theorem listed_inj (ha : ∀ a ∈ as, a ≠ "" ∧ lacks ',' a = true) (hb : ∀ b ∈ bs, b ≠ "" ∧ lacks ',' b = true) :
    listed as = listed bs ↔ as = bs := by
  have hne : ∀ a as, a ≠ "" → listed (a :: as) ≠ "" := by
    intro a as ha h
    rw [listed_cons, String.append_eq_empty_iff] at h
    exact ha h.1
  refine ⟨fun h => ?_, congrArg listed⟩
  match as, bs with
  | [], [] => rfl
  | [], b :: bs => exact absurd h.symm (hne b bs (hb b List.mem_cons_self).1)
  | a :: as, [] => exact absurd h (hne a as (ha a List.mem_cons_self).1)
  | a :: as, b :: bs =>
    obtain ⟨ha, has⟩ := List.forall_mem_cons.mp ha
    obtain ⟨hb, hbs⟩ := List.forall_mem_cons.mp hb
    rw [listed_cons, listed_cons] at h
    obtain ⟨rfl, hrest⟩ := cut ha.2 hb.2 (labelled_marked ", " as) (labelled_marked ", " bs) h rfl
    have hall : as = bs :=
      (marked_inj (by decide) (fun a hmem => (has a hmem).2) (fun b hmem => (hbs b hmem).2)).mp hrest
    rw [hall]

/-- Listed items are read back when each of them is. -/
theorem listed_map_eq_iff {α : Type} {f : α → String} {P : α → Prop} {xs ys : List α}
    (hf : ∀ x y, P x → P y → (f x = f y ↔ x = y)) (hP : ∀ x, P x → f x ≠ "" ∧ lacks ',' (f x) = true)
    (hx : ∀ x ∈ xs, P x) (hy : ∀ y ∈ ys, P y) : listed (xs.map f) = listed (ys.map f) ↔ xs = ys := by
  rw [listed_inj (List.forall_mem_map.mpr fun x hmem => hP x (hx x hmem))
    (List.forall_mem_map.mpr fun y hmem => hP y (hy y hmem)), map_eq_iff_forall₂ hf hx hy, List.forall₂_eq_eq_eq]

end Dump

end Schemata
