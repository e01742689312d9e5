import Mathlib
import Schemata.Text.Words

/-!
# Names in studly case

Studly case drops the separators of a name and changes the case of its letters. What is left of a name
of printable ASCII characters apart from these is still there; of a plain name, such as `author_id`,
nothing is lost, since every word begins with a capital.
-/

namespace Schemata.Text

/-! ### Printable characters -/

/-- The ASCII characters from the blank to the tilde. -/
def isPrintableAscii (c : Char) : Bool :=
  0x20 ≤ c.toNat && c.toNat < 0x7F

section Printable
variable {c : Char} {cs : List Char}

theorem isPrintableAscii_iff : isPrintableAscii c = true ↔ 0x20 ≤ c.toNat ∧ c.toNat < 0x7F := by
  simp [isPrintableAscii]

theorem clusterClass_of_isPrintableAscii (h : isPrintableAscii c = true) : clusterClass c = .other := by
  obtain ⟨hlow, hhigh⟩ := isPrintableAscii_iff.mp h
  unfold clusterClass
  dsimp only
  rw [if_neg (by omega), if_neg (by omega), if_neg (by omega), if_pos hhigh]

/-- The context after a printable character. -/
def printableContext : ClusterContext where
  last := .other
  pictographs := .none
  consonants := .none
  oddRegional := false

theorem start_of_isPrintableAscii (h : isPrintableAscii c = true) : ClusterContext.start c = printableContext := by
  have hascii : c.toNat < 0x80 := by
    have hhigh := (isPrintableAscii_iff.mp h).2
    omega
  simp [ClusterContext.start, ClusterContext.push, clusterClass_of_isPrintableAscii h, hascii, Tie.afterPictographRule,
    printableContext]

theorem not_joins_of_isPrintableAscii (h : isPrintableAscii c = true) : printableContext.joins c = false := by
  simp [ClusterContext.joins, clusterClass_of_isPrintableAscii h, printableContext, ClusterClass.standsAlone,
    ClusterClass.attaches, continuesSyllable]

/-- Printable characters stay by themselves. -/
theorem clusters_of_printable (h : ∀ c ∈ cs, isPrintableAscii c = true) : clusters cs = cs.map fun c => [c] := by
  have hafter : ∀ c rest, (∀ d ∈ rest, isPrintableAscii d = true) →
      clustersAfter printableContext [c] rest = [c] :: rest.map fun d => [d] := by
    intro c rest hrest
    induction rest generalizing c with
    | nil => rfl
    | cons d rest ih =>
      have hd := hrest d List.mem_cons_self
      rw [clustersAfter, not_joins_of_isPrintableAscii hd, start_of_isPrintableAscii hd,
        if_neg Bool.false_ne_true, ih d fun e he => hrest e (List.mem_cons_of_mem _ he)]
      rfl
  cases cs with
  | nil => rfl
  | cons c rest =>
    rw [clusters, start_of_isPrintableAscii (h c List.mem_cons_self)]
    exact hafter c rest fun d hd => h d (List.mem_cons_of_mem _ hd)

theorem upperChar_of_isPrintableAscii (h : isPrintableAscii c = true) : upperChar c = [c.toUpper] := by
  have hhigh := (isPrintableAscii_iff.mp h).2
  rw [upperChar, if_pos (by omega)]

theorem lowerChars_of_printable (h : ∀ c ∈ cs, isPrintableAscii c = true) :
    lowerChars cs = cs.map Char.toLower := by
  have hafter : ∀ before, lowerAfter before cs = cs.map Char.toLower := by
    induction cs with
    | nil => exact fun _ => rfl
    | cons c cs ih =>
      intro before
      have hhigh := (isPrintableAscii_iff.mp (h c List.mem_cons_self)).2
      have hsigma : c ≠ 'Σ' := by
        rintro rfl
        exact absurd hhigh (by decide)
      rw [lowerAfter, if_neg hsigma, lowerChar, if_pos (by omega), ih fun d hd => h d (List.mem_cons_of_mem _ hd)]
      rfl
  exact hafter []

end Printable

/-! ### Letters -/

/-- What is left of a name apart from separators and case. -/
def letters (s : String) : List Char :=
  (s.toList.filter fun c => !isSeparator [c]).map Char.toLower

theorem flatten_wordsAfter (word gs : List (List Char)) :
    (wordsAfter word gs).flatten = word.reverse.flatten ++ (gs.filter fun g => !isSeparator g).flatten := by
  induction gs generalizing word with
  | nil => simp [wordsAfter]
  | cons g gs ih =>
    rw [wordsAfter]
    split
    · rename_i hg
      simp [ih, hg]
    · rename_i hg
      split
      · simp [ih, hg]
      · simp [ih, hg]

theorem flatten_words {s : String} (h : ∀ c ∈ s.toList, isPrintableAscii c = true) :
    (words s).flatten = s.toList.filter fun c => !isSeparator [c] := by
  unfold words
  split
  · rename_i hs
    simp [String.isEmpty_iff.mp hs]
  · rw [flatten_wordsAfter, clusters_of_printable h, List.filter_map]
    simp [Function.comp_def, List.flatten_eq_flatMap, List.flatMap_map]

theorem toLower_capitalized {w : List Char} (h : ∀ c ∈ w, isPrintableAscii c = true) :
    (capitalized w).map Char.toLower = w.map Char.toLower := by
  cases w with
  | nil => rfl
  | cons c rest =>
    have hrest := lowerChars_of_printable fun d hd => h d (List.mem_cons_of_mem _ hd)
    rw [capitalized, upperChar_of_isPrintableAscii (h c List.mem_cons_self), hrest]
    simp

/-- Studly case keeps the letters of a name. -/
theorem letters_studlyCase {s : String} (h : ∀ c ∈ s.toList, isPrintableAscii c = true) :
    (studlyCase s).toList.map Char.toLower = letters s := by
  have hwords : ∀ w ∈ words s, ∀ c ∈ w, isPrintableAscii c = true := by
    intro w hw c hc
    have hmem : c ∈ (words s).flatten := List.mem_flatten.mpr ⟨w, hw, hc⟩
    rw [flatten_words h] at hmem
    exact h c (List.mem_filter.mp hmem).1
  have hcapital : ∀ ws : List (List Char), (∀ w ∈ ws, ∀ c ∈ w, isPrintableAscii c = true) →
      (ws.flatMap capitalized).map Char.toLower = ws.flatten.map Char.toLower := by
    intro ws hws
    induction ws with
    | nil => rfl
    | cons w ws ih =>
      rw [List.flatMap_cons, List.map_append, toLower_capitalized (hws w List.mem_cons_self),
        ih fun v hv => hws v (List.mem_cons_of_mem _ hv), List.flatten_cons, List.map_append]
  rw [studlyCase, String.toList_ofList, hcapital _ hwords, flatten_words h, letters]

/-! ### Plain names -/

/-- Whether `c` may stand behind `p` in a plain name: small letters make a word, digits may end it, and one
    underscore separates it from the next. A name begins as if an underscore stood before it. -/
def mayFollow (p c : Char) : Bool :=
  if c.isLower then p.isLower || p == '_' else p != '_' && (c.isDigit || c == '_')

/-- Whether the rest of a name is plain behind `p`. -/
def isPlainAfter (p : Char) : List Char → Bool
  | [] => p != '_'
  | c :: rest => mayFollow p c && isPlainAfter c rest

def isPlain (s : String) : Bool :=
  isPlainAfter '_' s.toList

/-- The rest of a plain name in studly case: without underscores, and with a capital behind each of them. -/
def raisedAfter (p : Char) : List Char → List Char
  | [] => []
  | c :: rest => (if c = '_' then [] else if p = '_' then [c.toUpper] else [c]) ++ raisedAfter c rest

section Plain
variable {c d p q : Char} {cs ds rest : List Char}

theorem isPlainAfter_cons :
    isPlainAfter p (c :: rest) = true ↔ mayFollow p c = true ∧ isPlainAfter c rest = true := by
  rw [isPlainAfter, Bool.and_eq_true]

theorem not_isUpper_of_isDigit (h : c.isDigit = true) : c.isUpper = false := by
  simp [Char.isUpper, Char.isDigit, UInt32.le_iff_toNat_le] at *
  omega

theorem not_isLower_of_isDigit (h : c.isDigit = true) : c.isLower = false := by
  simp [Char.isLower, Char.isDigit, UInt32.le_iff_toNat_le] at *
  omega

theorem not_isUpper_of_isLower (h : c.isLower = true) : c.isUpper = false := by
  simpa using Char.not_isUpper_of_isLower h

theorem isLower_of_follows (h : mayFollow '_' c = true) : c.isLower = true := by
  by_contra hc
  simp [mayFollow, hc] at h

theorem kind_of_follows (h : mayFollow p c = true) : c.isLower = true ∨ c.isDigit = true ∨ c = '_' := by
  by_cases hc : c.isLower = true
  · exact .inl hc
  · simp only [mayFollow, hc, Bool.false_eq_true, if_false, Bool.and_eq_true, Bool.or_eq_true, beq_iff_eq] at h
    exact .inr h.2

theorem not_isUpper_of_follows (h : mayFollow p c = true) : c.isUpper = false := by
  rcases kind_of_follows h with hc | hc | rfl
  · exact not_isUpper_of_isLower hc
  · exact not_isUpper_of_isDigit hc
  · rfl

theorem isPrintableAscii_of_follows (h : mayFollow p c = true) : isPrintableAscii c = true := by
  rw [isPrintableAscii_iff]
  rcases kind_of_follows h with hc | hc | rfl
  · simp [Char.isLower, UInt32.le_iff_toNat_le] at hc
    omega
  · simp [Char.isDigit, UInt32.le_iff_toNat_le] at hc
    omega
  · decide

theorem isPrintableAscii_of_isPlainAfter (h : isPlainAfter p cs = true) : ∀ c ∈ cs, isPrintableAscii c = true := by
  induction cs generalizing p with
  | nil => exact fun c hc => absurd hc List.not_mem_nil
  | cons d cs ih =>
    obtain ⟨hd, hcs⟩ := isPlainAfter_cons.mp h
    exact List.forall_mem_cons.mpr ⟨isPrintableAscii_of_follows hd, ih hcs⟩

theorem eq_underscore_of_follows (h : mayFollow p c = true) (hsep : isSeparator [c] = true) : c = '_' := by
  simp only [isSeparator, Bool.or_eq_true, beq_iff_eq, List.cons.injEq, and_true] at hsep
  rcases hsep with (rfl | rfl) | rfl
  · rfl
  · exact absurd (kind_of_follows h) (by decide)
  · exact absurd (kind_of_follows h) (by decide)

/-! ### Plain names in studly case -/

section Cluster
variable (h : isPrintableAscii c = true) (hc : c.isUpper = false)
include h hc

theorem lowerChars_singleton : lowerChars [c] = [c] := by
  have hlower : lowerChars [c] = [c.toLower] := lowerChars_of_printable (by simpa using h)
  rw [hlower, Char.toLower_eq_of_not_isUpper (by simp [hc])]

theorem isUpperCluster_singleton : isUpperCluster [c] = false := by
  rw [isUpperCluster, upperChars, List.flatMap_singleton, upperChar_of_isPrintableAscii h, lowerChars_singleton h hc]
  by_cases hup : c.toUpper = c <;> simp [hup]

theorem isLowerCluster_singleton : isLowerCluster [c] = c.isLower := by
  rw [isLowerCluster, upperChars, List.flatMap_singleton, upperChar_of_isPrintableAscii h, lowerChars_singleton h hc]
  by_cases hlow : c.isLower = true
  · have hne : c.toUpper ≠ c := by
      intro heq
      have hup := Char.isLower_toUpper_eq_false c
      rw [heq, hlow] at hup
      cases hup
    simp [hlow, hne]
  · simp [hlow, Char.toUpper_eq_of_not_isLower hlow]

end Cluster

theorem isDigitCluster_singleton : isDigitCluster [c] = c.isDigit := by
  simp [isDigitCluster]

/-- In a plain name a word ends before an underscore or between letters and digits. -/
theorem endsWord_of_plain (hc : mayFollow p c = true) (hrest : isPlainAfter c rest = true) :
    endsWord [c] (rest.map fun d => [d]) = (c.isLower && rest.head?.any Char.isDigit) := by
  have hup := isUpperCluster_singleton (isPrintableAscii_of_follows hc) (not_isUpper_of_follows hc)
  have hlow := isLowerCluster_singleton (isPrintableAscii_of_follows hc) (not_isUpper_of_follows hc)
  cases rest with
  | nil => simp [endsWord]
  | cons d rest =>
    have hd := (isPlainAfter_cons.mp hrest).1
    have hup' := isUpperCluster_singleton (isPrintableAscii_of_follows hd) (not_isUpper_of_follows hd)
    have hlow' := isLowerCluster_singleton (isPrintableAscii_of_follows hd) (not_isUpper_of_follows hd)
    -- No small letter stands behind a digit.
    have hkind : (c.isDigit && d.isLower) = false := by
      by_contra hboth
      simp only [Bool.not_eq_false, Bool.and_eq_true] at hboth
      have hnot := not_isLower_of_isDigit hboth.1
      simp only [mayFollow, hboth.2, if_true, hnot, Bool.false_or, beq_iff_eq] at hd
      rw [hd] at hboth
      exact absurd hboth.1 (by decide)
    have hchange : changesKind [c] [d] = (c.isLower && d.isDigit) := by
      simp [changesKind, hup, hlow, hup', hlow', isDigitCluster_singleton, hkind]
    cases rest with
    | nil => simp [endsWord, hchange]
    | cons e rest => simp [endsWord, hchange, hup]

theorem capitalized_of_plain (h : ∀ d ∈ c :: cs, isPrintableAscii d = true ∧ d.isUpper = false) :
    capitalized (c :: cs) = c.toUpper :: cs := by
  have hcs : ∀ d ∈ cs, isPrintableAscii d = true ∧ d.isUpper = false :=
    fun d hd => h d (List.mem_cons_of_mem _ hd)
  have hlower : cs.map Char.toLower = cs := by
    conv_rhs => rw [← List.map_id cs]
    exact List.map_congr_left fun d hd => Char.toLower_eq_of_not_isUpper (by simp [(hcs d hd).2])
  rw [capitalized, upperChar_of_isPrintableAscii (h c List.mem_cons_self).1,
    lowerChars_of_printable fun d hd => (hcs d hd).1, hlower]
  rfl

/-- The open word behind `p`, last character first: there is none behind an underscore and before the digits of a
    word. -/
structure OpenWord (p : Char) (word rest : List Char) : Prop where
  plain : ∀ c ∈ word, isPrintableAscii c = true ∧ c.isUpper = false
  opened : word = [] ∧ (p = '_' ∨ rest.head?.any Char.isDigit = true) ∨ word ≠ [] ∧ p ≠ '_'

namespace OpenWord

variable {word : List Char}

theorem capitalized_concat (h : OpenWord p word (c :: rest)) (hc : isPrintableAscii c = true ∧ c.isUpper = false) :
    capitalized (word.reverse ++ [c]) = capitalized word.reverse ++ if p = '_' then [c.toUpper] else [c] := by
  rcases h.opened with ⟨rfl, hfirst⟩ | ⟨hword, hp⟩
  · have hone : capitalized [c] = [c.toUpper] := capitalized_of_plain (by simpa using hc)
    rw [List.reverse_nil, List.nil_append, hone]
    split
    · rfl
    · rename_i hp
      have hdigit : c.isDigit = true := by simpa [hp] using hfirst
      rw [Char.toUpper_eq_of_not_isLower (by simp [not_isLower_of_isDigit hdigit])]
      rfl
  · have hplain : ∀ d ∈ word.reverse ++ [c], isPrintableAscii d = true ∧ d.isUpper = false := by
      intro d hd
      rcases List.mem_append.mp hd with hd | hd
      · exact h.plain d (List.mem_reverse.mp hd)
      · exact List.mem_singleton.mp hd ▸ hc
    rw [if_neg hp]
    cases hrev : word.reverse with
    | nil => exact absurd (List.reverse_eq_nil_iff.mp hrev) hword
    | cons x xs =>
      rw [hrev, List.cons_append] at hplain
      have hxs : ∀ d ∈ x :: xs, isPrintableAscii d = true ∧ d.isUpper = false :=
        fun d hd => hplain d (List.mem_append_left [c] hd)
      rw [List.cons_append, capitalized_of_plain hplain, capitalized_of_plain hxs, List.cons_append]

theorem push (h : OpenWord p word (c :: rest)) (hc : isPrintableAscii c = true ∧ c.isUpper = false)
    (hne : c ≠ '_') : OpenWord c (c :: word) rest where
  plain := List.forall_mem_cons.mpr ⟨hc, h.plain⟩
  opened := .inr ⟨List.cons_ne_nil _ _, hne⟩

end OpenWord

/-- What a plain name is in studly case. -/
theorem capitalized_wordsAfter {word : List Char} (hcs : isPlainAfter p cs = true) (hword : OpenWord p word cs) :
    (wordsAfter (word.map fun c => [c]) (cs.map fun c => [c])).flatMap capitalized =
      capitalized word.reverse ++ raisedAfter p cs := by
  have hflatten : ∀ w : List Char, ((w.map fun c => [c]).reverse).flatten = w.reverse := by
    intro w
    rw [← List.map_reverse, List.flatten_eq_flatMap, List.flatMap_map]
    simp
  induction cs generalizing p word with
  | nil => simp [wordsAfter, hflatten, raisedAfter]
  | cons c rest ih =>
    obtain ⟨hc, hrest⟩ := isPlainAfter_cons.mp hcs
    rw [List.map_cons, wordsAfter]
    by_cases hsep : c = '_'
    · subst hsep
      have hclosed : OpenWord '_' [] rest := ⟨fun d hd => absurd hd List.not_mem_nil, .inl ⟨rfl, .inl rfl⟩⟩
      have hnext := ih hrest hclosed
      rw [if_pos (by decide), List.flatMap_cons, hflatten]
      simpa [raisedAfter, capitalized] using hnext
    · have hplain := And.intro (isPrintableAscii_of_follows hc) (not_isUpper_of_follows hc)
      rw [if_neg fun h => hsep (eq_underscore_of_follows hc h), endsWord_of_plain hc hrest]
      have hraised : raisedAfter p (c :: rest) = (if p = '_' then [c.toUpper] else [c]) ++ raisedAfter c rest := by
        rw [raisedAfter, if_neg hsep]
      rw [hraised, ← List.append_assoc, ← hword.capitalized_concat hplain]
      split
      · rename_i hends
        rw [Bool.and_eq_true] at hends
        have hclosed : OpenWord c [] rest := ⟨fun d hd => absurd hd List.not_mem_nil, .inl ⟨rfl, .inr hends.2⟩⟩
        have hnext := ih hrest hclosed
        have hword := hflatten (c :: word)
        rw [List.map_cons, List.reverse_cons (a := c)] at hword
        rw [List.flatMap_cons, hword]
        simpa [capitalized] using hnext
      · have hnext := ih hrest (hword.push hplain hsep)
        simpa using hnext

theorem studlyCase_of_isPlain {s : String} (h : isPlain s = true) :
    (studlyCase s).toList = raisedAfter '_' s.toList := by
  have hne : s.isEmpty = false := by
    rw [← Bool.not_eq_true, String.isEmpty_iff]
    rintro rfl
    cases h
  have hword : OpenWord '_' [] s.toList := ⟨fun _ hd => absurd hd List.not_mem_nil, .inl ⟨rfl, .inl rfl⟩⟩
  rw [studlyCase, String.toList_ofList, words, hne, if_neg Bool.false_ne_true,
    clusters_of_printable (isPrintableAscii_of_isPlainAfter h)]
  exact capitalized_wordsAfter h hword

/-! ### Nothing is lost -/

/-- The plain name behind an underscore of which a text is the studly case. -/
def lowered (cs : List Char) : List Char :=
  cs.flatMap fun c => if c.isUpper then ['_', c.toLower] else [c]

theorem lowered_raisedAfter (h : isPlainAfter p cs = true) :
    lowered (raisedAfter p cs) = (if p = '_' then ['_'] else []) ++ cs := by
  induction cs generalizing p with
  | nil =>
    have hp : p ≠ '_' := by simpa [isPlainAfter] using h
    rw [raisedAfter, if_neg hp]
    rfl
  | cons c rest ih =>
    obtain ⟨hc, hrest⟩ := isPlainAfter_cons.mp h
    have hnext := ih hrest
    by_cases hunder : c = '_'
    · subst hunder
      have hp : p ≠ '_' := by
        rintro rfl
        cases hc
      simpa [raisedAfter, hp] using hnext
    · rw [if_neg hunder, List.nil_append] at hnext
      by_cases hp : p = '_'
      · subst hp
        have hlower := isLower_of_follows hc
        have hupper : c.toUpper.isUpper = true := by simp [Char.isAlpha, hlower]
        have hback : c.toUpper.toLower = c := by
          rw [Char.toLower_toUpper_eq_toLower, Char.toLower_eq_of_not_isUpper (by simp [not_isUpper_of_follows hc])]
        rw [raisedAfter, if_neg hunder, if_pos rfl, lowered, List.flatMap_append, ← lowered, ← lowered, hnext]
        simp [lowered, hupper, hback]
      · rw [raisedAfter, if_neg hunder, if_neg hp, lowered, List.flatMap_append, ← lowered, ← lowered, hnext]
        simp [lowered, not_isUpper_of_follows hc, hp]

theorem raisedAfter_append (cs ds : List Char) :
    raisedAfter p (cs ++ '_' :: ds) = raisedAfter p cs ++ raisedAfter '_' ds := by
  induction cs generalizing p with
  | nil => rfl
  | cons c cs ih => rw [List.cons_append, raisedAfter, raisedAfter, ih, List.append_assoc]

end Plain

/-! ### Several names -/

/-- The names in studly case, one after another. -/
def studlyCases (names : List String) : String :=
  String.join (names.map studlyCase)

theorem toList_studlyCases (names : List String) :
    (studlyCases names).toList = names.flatMap fun s => (studlyCase s).toList := by
  rw [studlyCases, String.toList_join, List.flatMap_map]

/-- What is left of several names. -/
theorem letters_studlyCases {names : List String} (h : ∀ s ∈ names, ∀ c ∈ s.toList, isPrintableAscii c = true) :
    (studlyCases names).toList.map Char.toLower = names.flatMap letters := by
  rw [toList_studlyCases, List.map_flatMap]
  exact List.flatMap_congr fun s hs => letters_studlyCase (h s hs)

theorem raisedAfter_intercalate (names : List (List Char)) :
    raisedAfter '_' (List.intercalate ['_'] names) = names.flatMap (raisedAfter '_') := by
  induction names with
  | nil => rfl
  | cons name names ih =>
    cases names with
    | nil => simp
    | cons next names =>
      rw [List.intercalate_cons_cons, List.append_assoc, List.singleton_append, raisedAfter_append, ih]
      rfl

theorem underscore_intercalate {names : List (List Char)} (h : names ≠ []) :
    '_' :: List.intercalate ['_'] names = names.flatMap ('_' :: ·) := by
  induction names with
  | nil => exact absurd rfl h
  | cons name names ih =>
    cases names with
    | nil => simp
    | cons next names =>
      rw [List.intercalate_cons_cons, List.append_assoc, List.singleton_append, ih (List.cons_ne_nil _ _)]
      rfl

theorem toList_underscored (names : List String) :
    ("_".intercalate names).toList = List.intercalate ['_'] (names.map String.toList) :=
  String.toList_intercalate

section Names
variable {names : List String} (hplain : ∀ s ∈ names, isPlain s = true)
include hplain

/-- Plain names are raised as one name with underscores between them is. -/
theorem studlyCases_of_plain : (studlyCases names).toList = raisedAfter '_' ("_".intercalate names).toList := by
  rw [toList_studlyCases, toList_underscored, raisedAfter_intercalate, List.flatMap_map]
  exact List.flatMap_congr fun s hs => studlyCase_of_isPlain (hplain s hs)

theorem lowered_studlyCases (hne : names ≠ []) :
    lowered (studlyCases names).toList = '_' :: ("_".intercalate names).toList := by
  have heach : ∀ s ∈ names, lowered (studlyCase s).toList = '_' :: s.toList := by
    intro s hs
    rw [studlyCase_of_isPlain (hplain s hs), lowered_raisedAfter (hplain s hs)]
    rfl
  rw [toList_studlyCases, lowered, List.flatMap_assoc, toList_underscored,
    underscore_intercalate (by simpa using hne), List.flatMap_map]
  exact List.flatMap_congr heach

end Names

/-- Plain names are the same in studly case exactly if they are with underscores between them. -/
theorem studlyCases_eq_iff {a b : List String} (ha : a ≠ []) (hb : b ≠ []) (hpa : ∀ s ∈ a, isPlain s = true)
    (hpb : ∀ s ∈ b, isPlain s = true) :
    studlyCases a = studlyCases b ↔ "_".intercalate a = "_".intercalate b := by
  constructor
  · intro h
    have hlowered := lowered_studlyCases hpa ha
    rw [h, lowered_studlyCases hpb hb, List.cons.injEq, String.toList_inj] at hlowered
    exact hlowered.2.symm
  · intro h
    have hraised := studlyCases_of_plain hpa
    rw [h, ← studlyCases_of_plain hpb, String.toList_inj] at hraised
    exact hraised

end Schemata.Text
