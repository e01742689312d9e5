import Mathlib
import Schemata.Proofs.Likeness

/-!
# The pieces of a line

Each piece of a line of a dump is read back: the value that it shows and the text behind it follow from the text
that begins with it.
-/

namespace Schemata.Dump

open Text

variable {ks ls : List String} {r s : String} {x : Char}

/-! ### Settings and types -/

theorem isWord_toString (b : Bool) : isWord (toString b) = true := by
  cases b <;> decide

theorem toString_inj {b c : Bool} (h : toString b = toString c) : b = c := by
  revert h
  cases b <;> cases c <;> decide

theorem isWord_idMethodText (m : IdMethod) : isWord m.text = true := by
  cases m <;> decide

theorem idMethodText_inj {m n : IdMethod} (h : m.text = n.text) : m = n := by
  revert h
  cases m <;> cases n <;> decide

theorem isWord_stringFormatText (f : StringFormat) : isWord f.text = true := by
  cases f <;> decide

theorem stringFormatText_inj {f g : StringFormat} (h : f.text = g.text) : f = g := by
  revert h
  cases f <;> cases g <;> decide

def allTypes : List ColumnType :=
  (ColumnType.spellings.map (·.2)).eraseDups

theorem mem_allTypes (t : ColumnType) : t ∈ allTypes := by
  cases t <;> decide

theorem isWord_columnTypeName (t : ColumnType) : isWord t.name = true := by
  have hall : ∀ t ∈ allTypes, isWord t.name = true := by decide
  exact hall t (mem_allTypes t)

theorem columnTypeName_inj {t u : ColumnType} (h : t.name = u.name) : t = u := by
  have hall : (allTypes.map ColumnType.name).Nodup := by decide
  exact List.inj_on_of_nodup_map hall (mem_allTypes t) (mem_allTypes u) h

/-! ### Flags -/

theorem labelled_word (b : Bool) (t : String) : Labelled [" " ++ t] (word b t) := by
  cases b with
  | false => exact labelled_empty
  | true =>
    have hself := labelled_self (k := " " ++ t) (s := "")
    rwa [String.append_empty] at hself

theorem lacks_word {b : Bool} {t : String} (h : lacks x (" " ++ t) = true) : lacks x (word b t) = true := by
  cases b with
  | false => rfl
  | true => exact h

theorem word_eq_empty_iff {b : Bool} {t : String} : word b t = "" ↔ b = false := by
  cases b <;> simp [word, String.append_eq_empty_iff]

theorem word_cut_flag {b c : Bool} {t : String} (hr : Labelled ks r) (hs : Labelled ks s)
    (h : word b t ++ r = word c t ++ s) (hks : ks.all (apart (" " ++ t)) = true) : b = c ∧ r = s := by
  have hne : " " ++ t ≠ "" := by simp [String.append_eq_empty_iff]
  have hmissing := missing_iff (labelled_word b t) (labelled_word c t) hr hs hne hks h
  rw [word_eq_empty_iff, word_eq_empty_iff] at hmissing
  obtain rfl : b = c := by cases b <;> cases c <;> simp_all
  exact ⟨rfl, (String.append_right_inj _).mp h⟩

/-! ### Sizes -/

theorem sizeText_eq (size scale : Option Nat) :
    sizeText size scale =
      optionalText "(" (fun n : Nat => n.repr ++ (optionalText "," Nat.repr scale ++ ")")) size := by
  cases size with
  | none => rfl
  | some n =>
    cases scale with
    | none =>
      show "(" ++ n.repr ++ ")" = "(" ++ (n.repr ++ ("" ++ ")"))
      rw [String.append_assoc, String.empty_append]
    | some m =>
      show "(" ++ n.repr ++ "," ++ m.repr ++ ")" = "(" ++ (n.repr ++ ("," ++ m.repr ++ ")"))
      simp only [String.append_assoc]

theorem labelled_sizeText (size scale : Option Nat) : Labelled ["("] (sizeText size scale) := by
  rw [sizeText_eq]
  exact labelled_optionalText

/-- A size is read back, and with it the scale. -/
theorem sizeText_cut {size size' scale scale' : Option Nat} (hr : Labelled ks r) (hs : Labelled ks s)
    (h : sizeText size scale ++ r = sizeText size' scale' ++ s) (hks : ks.all (apart "(") = true) :
    size = size' ∧ (size ≠ none → scale = scale') ∧ r = s := by
  rw [sizeText_eq, sizeText_eq] at h
  obtain ⟨rfl, rfl, rfl⟩ | ⟨n, m, rfl, rfl, hsizes⟩ := optional_cut hr hs h (by decide) hks
  · exact ⟨rfl, fun hne => absurd rfl hne, rfl⟩
  · have hclose (r : String) : Labelled [")"] (")" ++ r) := labelled_self
    simp only [String.append_assoc] at hsizes
    obtain ⟨hsize, hscales⟩ := word_cut (isWord_repr n) (isWord_repr m) (labelled_optionalText.append (hclose r))
      (labelled_optionalText.append (hclose s)) hsizes rfl
    obtain rfl := Nat.repr_inj.mp hsize
    obtain ⟨rfl, rfl, hrest⟩ | ⟨a, b, rfl, rfl, hscale⟩ := optional_cut (hclose r) (hclose s) hscales (by decide) rfl
    · exact ⟨rfl, fun _ => rfl, (String.append_right_inj _).mp hrest⟩
    · obtain ⟨hab, hrest⟩ := word_cut_at (isWord_repr a) (isWord_repr b) hscale rfl
      exact ⟨rfl, fun _ => by rw [Nat.repr_inj.mp hab], hrest⟩

theorem sizeText_congr {size size' scale scale' : Option Nat} (hsize : size = size')
    (hscale : size ≠ none → scale = scale') : sizeText size scale = sizeText size' scale' := by
  subst hsize
  cases size with
  | none => rfl
  | some n => rw [hscale (Option.some_ne_none n)]

theorem lacks_sizeText {size scale : Option Nat} (hx : isWordChar x = false) (hbrackets : lacks x "()" = true)
    (hcomma : ∀ m ∈ scale, lacks x "," = true) : lacks x (sizeText size scale) = true := by
  have hopen : lacks x "(" = true ∧ lacks x ")" = true := by simpa [lacks] using hbrackets
  have hscale : lacks x (optionalText "," Nat.repr scale) = true :=
    lacks_optionalText fun m hm => ⟨hcomma m hm, lacks_of_isWord (isWord_repr m) hx⟩
  rw [sizeText_eq]
  refine lacks_optionalText fun n _ => ⟨hopen.1, ?_⟩
  rw [lacks_append, lacks_append, lacks_of_isWord (isWord_repr n) hx, hscale, hopen.2]
  rfl

/-! ### Defaults -/

/-- How a default is shown: a literal in quotes, an expression as it is. -/
def shownDefault : Default → String
  | .value text => "'" ++ (text ++ "'")
  | .expression text => text

theorem defaultText_eq (d : Option Default) : defaultText d = optionalText " default=" shownDefault d := by
  match d with
  | none => rfl
  | some (.value text) =>
    show " default='" ++ text ++ "'" = " default=" ++ ("'" ++ (text ++ "'"))
    rw [← String.append_assoc, ← String.append_assoc]
    rfl
  | some (.expression text) => rfl

theorem labelled_defaultText (d : Option Default) : Labelled [" default="] (defaultText d) := by
  rw [defaultText_eq]
  exact labelled_optionalText

/-- The quotes of a literal may be those of an expression. -/
theorem shownDefault_eq_iff {d e : Default} :
    shownDefault d = shownDefault e ↔ Default.LooksLike (some d) (some e) := by
  constructor
  · intro h
    match d, e with
    | .value a, .value b =>
      simp only [shownDefault, String.append_right_inj, String.append_left_inj] at h
      exact h ▸ .same _
    | .value a, .expression b =>
      obtain rfl : "'" ++ (a ++ "'") = b := h
      rw [← String.append_assoc]
      exact .quoted a
    | .expression a, .value b =>
      obtain rfl : a = "'" ++ (b ++ "'") := h
      rw [← String.append_assoc]
      exact .unquoted b
    | .expression a, .expression b =>
      obtain rfl : a = b := h
      exact .same _
  · intro h
    cases h with
    | same => rfl
    | quoted text => rw [shownDefault, shownDefault, String.append_assoc]
    | unquoted text => rw [shownDefault, shownDefault, String.append_assoc]

theorem lacks_shownDefault {d : Default} (h : isUnbroken d.text = true) (hx : x = ' ' ∨ x = '\n') :
    lacks x (shownDefault d) = true := by
  have htext := lacks_of_isUnbroken h hx
  cases d with
  | value text =>
    have hquote : lacks x "'" = true := by
      rcases hx with rfl | rfl <;> decide
    rw [shownDefault, lacks_append, lacks_append, hquote, Bool.true_and, Bool.and_true]
    exact htext
  | expression text => exact htext

/-- A default in one piece is read back, up to quotes. -/
theorem defaultText_cut {d e : Option Default} (hd : ∀ m ∈ d, isUnbroken m.text = true)
    (he : ∀ m ∈ e, isUnbroken m.text = true) (hr : Labelled ks r) (hs : Labelled ks s)
    (h : defaultText d ++ r = defaultText e ++ s) (hks : ks.all (apart " default=") = true)
    (hblank : ks.all (halts (· != ' ')) = true) : Default.LooksLike d e ∧ r = s := by
  rw [defaultText_eq, defaultText_eq] at h
  obtain ⟨rfl, rfl, rfl⟩ | ⟨m, n, rfl, rfl, hmn⟩ := optional_cut hr hs h (by decide) hks
  · exact ⟨.same none, rfl⟩
  · obtain ⟨hshown, hrest⟩ := cut (lacks_shownDefault (hd m rfl) (.inl rfl)) (lacks_shownDefault (he n rfl) (.inl rfl))
      hr hs hmn hblank
    exact ⟨shownDefault_eq_iff.mp hshown, hrest⟩

theorem defaultText_congr {d e : Option Default} (h : Default.LooksLike d e) : defaultText d = defaultText e := by
  rw [defaultText_eq, defaultText_eq]
  cases h with
  | same => rfl
  | quoted text => exact congrArg (" default=" ++ ·) (shownDefault_eq_iff.mpr (.quoted text))
  | unquoted text => exact congrArg (" default=" ++ ·) (shownDefault_eq_iff.mpr (.unquoted text))

/-! ### Back edges -/

theorem keyIdText_eq_iff {k l : KeyId} (hk : k.IsLegible) (hl : l.IsLegible) : k.text = l.text ↔ k = l := by
  rw [KeyId.text, KeyId.text, word_pair_inj hk.table hl.table rfl]
  cases k
  cases l
  rw [KeyId.mk.injEq]

theorem lacks_keyIdText {k : KeyId} (hk : k.IsLegible) (hx : isWordChar x = false) (hdot : lacks x "." = true) :
    lacks x k.text = true := by
  rw [KeyId.text, lacks_append, lacks_append, lacks_of_isWord hk.table hx, lacks_of_isWord hk.name hx, hdot]
  rfl

section KeyIds
variable {is js : List KeyId} (hi : ∀ k ∈ is, k.IsLegible) (hj : ∀ k ∈ js, k.IsLegible)
include hi

theorem lacks_keyIds (hx : isWordChar x = false) (hdot : lacks x "." = true) (hmark : lacks x ", " = true) :
    lacks x (keyIds is) = true :=
  lacks_listed hmark (List.forall_mem_map.mpr fun k hk => lacks_keyIdText (hi k hk) hx hdot)

include hj

theorem keyIds_eq_iff : keyIds is = keyIds js ↔ is = js := by
  refine listed_map_eq_iff (fun _ _ => keyIdText_eq_iff) (fun k hk => ⟨?_, lacks_keyIdText hk rfl rfl⟩) hi hj
  rw [KeyId.text, String.append_assoc]
  exact fun h => ne_of_isWord hk.table (String.append_eq_empty_iff.mp h).1

end KeyIds

/-! ### References -/

theorem referenceText_eq_iff {m n : Reference} (hm : m.IsLegible) (hn : n.IsLegible) :
    referenceText m = referenceText n ↔ m = n := by
  rw [referenceText, referenceText, word_pair_inj hm.localColumn hn.localColumn rfl]
  cases m
  cases n
  rw [Reference.mk.injEq]

theorem lacks_referenceText {m : Reference} (hm : m.IsLegible) (hx : isWordChar x = false)
    (hsign : lacks x "=" = true) : lacks x (referenceText m) = true := by
  rw [referenceText, lacks_append, lacks_append, lacks_of_isWord hm.localColumn hx,
    lacks_of_isWord hm.foreignColumn hx, hsign]
  rfl

theorem lacks_references {ms : List Reference} (hm : ∀ m ∈ ms, m.IsLegible) (hx : isWordChar x = false)
    (hsign : lacks x "=" = true) (hmark : lacks x ", " = true) :
    lacks x (listed (ms.map referenceText)) = true :=
  lacks_listed hmark (List.forall_mem_map.mpr fun m hmem => lacks_referenceText (hm m hmem) hx hsign)

theorem references_eq_iff {ms ns : List Reference} (hm : ∀ m ∈ ms, m.IsLegible) (hn : ∀ n ∈ ns, n.IsLegible) :
    listed (ms.map referenceText) = listed (ns.map referenceText) ↔ ms = ns := by
  refine listed_map_eq_iff (fun _ _ => referenceText_eq_iff) (fun m hm => ⟨?_, lacks_referenceText hm rfl rfl⟩) hm hn
  rw [referenceText, String.append_assoc]
  exact fun h => ne_of_isWord hm.localColumn (String.append_eq_empty_iff.mp h).1

/-! ### Actions -/

theorem actionText_eq (label : String) (a : ReferentialAction) :
    actionText label a = optionalText (" " ++ label ++ "=") id a.sql? := by
  unfold actionText
  split <;> rename_i hsql <;> rw [hsql] <;> rfl

theorem labelled_actionText (label : String) (a : ReferentialAction) :
    Labelled [" " ++ label ++ "="] (actionText label a) := by
  rw [actionText_eq]
  exact labelled_optionalText

theorem eq_none_of_sql? {a : ReferentialAction} (h : a.sql? = none) : a = .none := by
  cases a with
  | none => rfl
  | _ => cases h

/-- No action begins with another one. -/
theorem eq_or_apart {a b : ReferentialAction} {m n : String} (hm : a.sql? = some m) (hn : b.sql? = some n) :
    a = b ∨ apart m n = true := by
  cases a <;> cases b <;> cases hm <;> cases hn <;> decide

theorem actionText_cut {label : String} {a b : ReferentialAction} (hr : Labelled ks r) (hs : Labelled ks s)
    (h : actionText label a ++ r = actionText label b ++ s)
    (hks : ks.all (apart (" " ++ label ++ "=")) = true) : a = b ∧ r = s := by
  rw [actionText_eq, actionText_eq] at h
  have hne : " " ++ label ++ "=" ≠ "" := by simp [String.append_eq_empty_iff]
  obtain ⟨hm, hn, hrest⟩ | ⟨m, n, hm, hn, hmn⟩ := optional_cut hr hs h hne hks
  · exact ⟨(eq_none_of_sql? hm).trans (eq_none_of_sql? hn).symm, hrest⟩
  · rcases eq_or_apart hm hn with rfl | hapart
    · cases hm.symm.trans hn
      exact ⟨rfl, (String.append_right_inj _).mp hmn⟩
    · have hbegins : begins m (n ++ s) = true := (show m ++ r = n ++ s from hmn) ▸ begins_append
      rw [begins_eq_false begins_append hapart] at hbegins
      cases hbegins

theorem lacks_actionText {label : String} {a : ReferentialAction} (hlabel : lacks '\n' (" " ++ label ++ "=") = true) :
    lacks '\n' (actionText label a) = true := by
  rw [actionText_eq]
  refine lacks_optionalText fun sql hsql => ⟨hlabel, ?_⟩
  cases a <;> cases hsql <;> decide

/-! ### Columns of indices -/

theorem indexColumnText_eq (c : IndexColumn) : indexColumnText c = c.name ++ sizeText c.size none := by
  unfold indexColumnText
  cases c.size with
  | none => exact String.append_empty.symm
  | some size => rfl

theorem indexColumnText_eq_iff {c d : IndexColumn} (hc : isWord c.name = true) (hd : isWord d.name = true) :
    indexColumnText c = indexColumnText d ↔ c = d := by
  refine ⟨fun h => ?_, congrArg indexColumnText⟩
  rw [indexColumnText_eq, indexColumnText_eq] at h
  obtain ⟨hname, h⟩ := word_cut hc hd (labelled_sizeText _ _) (labelled_sizeText _ _) h rfl
  obtain ⟨hsize, -⟩ := sizeText_cut labelled_end labelled_end (congrArg (· ++ "") h) rfl
  cases c
  cases d
  cases hname
  cases hsize
  rfl

theorem lacks_indexColumnText {c : IndexColumn} (hc : isWord c.name = true) (hx : isWordChar x = false)
    (hbrackets : lacks x "()" = true) : lacks x (indexColumnText c) = true := by
  rw [indexColumnText_eq, lacks_append, lacks_of_isWord hc hx, lacks_sizeText hx hbrackets fun _ hm => by cases hm]
  rfl

theorem indexColumns_eq_iff {cs ds : List IndexColumn} (hc : ∀ c ∈ cs, isWord c.name = true)
    (hd : ∀ d ∈ ds, isWord d.name = true) :
    listed (cs.map indexColumnText) = listed (ds.map indexColumnText) ↔ cs = ds := by
  refine listed_map_eq_iff (P := fun c => isWord c.name = true) (fun _ _ => indexColumnText_eq_iff)
    (fun c hc => ⟨?_, lacks_indexColumnText hc rfl rfl⟩) hc hd
  rw [indexColumnText_eq]
  exact fun h => ne_of_isWord hc (String.append_eq_empty_iff.mp h).1

end Schemata.Dump
