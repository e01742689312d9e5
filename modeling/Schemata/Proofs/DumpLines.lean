import Schemata.Proofs.DumpPieces

/-!
# The lines of a dump

Each line is read back piece by piece, from left to right. What may stand behind a piece is put together from the
labels of the pieces that follow it (`Labelled.append`), and these labels never begin one another.
-/

namespace Schemata.Dump

open Text

/-! ### Columns -/

/-- The back edges behind a column. -/
def backText (ks : List KeyId) : String :=
  if ks.isEmpty then "" else " <- " ++ keyIds ks

theorem labelled_backText (ks : List KeyId) : Labelled [" <- "] (backText ks) := by
  unfold backText
  split
  · exact labelled_empty
  · exact labelled_self

theorem backText_eq_iff {ks ls : List KeyId} (hk : ∀ k ∈ ks, k.IsLegible) (hl : ∀ l ∈ ls, l.IsLegible) :
    backText ks = backText ls ↔ ks = ls := by
  refine ⟨fun h => ?_, congrArg backText⟩
  match ks, ls with
  | [], [] => rfl
  | [], l :: ls => exact absurd (String.append_eq_empty_iff.mp h.symm).1 (by decide)
  | k :: ks, [] => exact absurd (String.append_eq_empty_iff.mp h).1 (by decide)
  | k :: ks, l :: ls => exact (keyIds_eq_iff hk hl).mp ((String.append_right_inj _).mp h)

theorem lacks_backText {ks : List KeyId} (hk : ∀ k ∈ ks, k.IsLegible) : lacks '\n' (backText ks) = true := by
  unfold backText
  split
  · rfl
  · rw [lacks_append, lacks_keyIds hk rfl rfl rfl]
    rfl

theorem columnLine_eq (c : Column) :
    columnLine c = "    column " ++ (c.name ++ (" " ++ (c.domain.type.name ++ (sizeText c.domain.size c.domain.scale ++
      (word c.primaryKey "pk" ++ (word c.autoIncrement "autoIncrement" ++ (word c.notNull "notNull" ++
        (defaultText c.domain.default ++ backText c.referrers)))))))) := by
  unfold columnLine
  simp only [String.append_assoc, backText]

theorem columnLine_eq_iff {c d : Column} (hc : c.IsLegible) (hd : d.IsLegible) :
    columnLine c = columnLine d ↔ c.LooksLike d := by
  rw [columnLine_eq, columnLine_eq, String.append_right_inj]
  constructor
  · intro h
    have hback (c : Column) := labelled_backText c.referrers
    have hdefault (c : Column) := (labelled_defaultText c.domain.default).append (hback c)
    have hnotNull (c : Column) := (labelled_word c.notNull "notNull").append (hdefault c)
    have hauto (c : Column) := (labelled_word c.autoIncrement "autoIncrement").append (hnotNull c)
    have hkey (c : Column) := (labelled_word c.primaryKey "pk").append (hauto c)
    have hsize (c : Column) := (labelled_sizeText c.domain.size c.domain.scale).append (hkey c)
    obtain ⟨name, h⟩ := word_cut_at hc.name hd.name h rfl
    obtain ⟨type, h⟩ := word_cut (isWord_columnTypeName _) (isWord_columnTypeName _) (hsize c) (hsize d) h rfl
    obtain ⟨size, scale, h⟩ := sizeText_cut (hkey c) (hkey d) h rfl
    obtain ⟨primaryKey, h⟩ := word_cut_flag (hauto c) (hauto d) h rfl
    obtain ⟨autoIncrement, h⟩ := word_cut_flag (hnotNull c) (hnotNull d) h rfl
    obtain ⟨notNull, h⟩ := word_cut_flag (hdefault c) (hdefault d) h rfl
    obtain ⟨default, h⟩ := defaultText_cut hc.default hd.default (hback c) (hback d) h rfl rfl
    exact ⟨⟨name, columnTypeName_inj type, size, primaryKey, autoIncrement, notNull,
      (backText_eq_iff hc.referrers hd.referrers).mp h⟩, scale, default⟩
  · intro h
    rw [h.name, h.type, sizeText_congr h.size h.scale, h.primaryKey, h.autoIncrement, h.notNull,
      defaultText_congr h.default, h.referrers]

theorem lacks_columnLine {c : Column} (hc : c.IsLegible) : lacks '\n' (columnLine c) = true := by
  have hdefault : lacks '\n' (defaultText c.domain.default) = true := by
    rw [defaultText_eq]
    exact lacks_optionalText fun d hd => ⟨rfl, lacks_shownDefault (hc.default d hd) (.inr rfl)⟩
  simp only [columnLine_eq, lacks_append, Bool.and_eq_true]
  exact ⟨rfl, lacks_of_isWord hc.name rfl, rfl, lacks_of_isWord (isWord_columnTypeName _) rfl,
    lacks_sizeText rfl rfl fun _ _ => rfl, lacks_word rfl, lacks_word rfl, lacks_word rfl, hdefault,
    lacks_backText hc.referrers⟩

/-! ### Foreign keys -/

theorem foreignKeyLine_eq (k : ForeignKey) :
    foreignKeyLine k = "    foreignKey " ++ (k.name ++ (" -> " ++ (k.target ++ (" (" ++
      (listed (k.references.map referenceText) ++ (")" ++
        (actionText "onDelete" k.onDelete ++ actionText "onUpdate" k.onUpdate))))))) := by
  unfold foreignKeyLine
  simp only [String.append_assoc]

theorem foreignKeyLine_eq_iff {k l : ForeignKey} (hk : k.IsLegible) (hl : l.IsLegible) :
    foreignKeyLine k = foreignKeyLine l ↔ k.LooksLike l := by
  rw [foreignKeyLine_eq, foreignKeyLine_eq, String.append_right_inj]
  constructor
  · intro h
    have hupdate (k : ForeignKey) := labelled_actionText "onUpdate" k.onUpdate
    obtain ⟨name, h⟩ := word_cut_at hk.name hl.name h rfl
    obtain ⟨target, h⟩ := word_cut_at hk.target hl.target h rfl
    obtain ⟨references, h⟩ := cut_at (lacks_references (x := ')') hk.references rfl rfl rfl)
      (lacks_references hl.references rfl rfl rfl) h rfl
    obtain ⟨onDelete, h⟩ := actionText_cut (hupdate k) (hupdate l) h rfl
    obtain ⟨onUpdate, -⟩ := actionText_cut labelled_end labelled_end (congrArg (· ++ "") h) rfl
    exact ⟨name, target, (references_eq_iff hk.references hl.references).mp references, onDelete, onUpdate⟩
  · intro h
    rw [h.name, h.target, h.references, h.onDelete, h.onUpdate]

theorem lacks_foreignKeyLine {k : ForeignKey} (hk : k.IsLegible) : lacks '\n' (foreignKeyLine k) = true := by
  simp only [foreignKeyLine_eq, lacks_append, Bool.and_eq_true]
  exact ⟨rfl, lacks_of_isWord hk.name rfl, rfl, lacks_of_isWord hk.target rfl, rfl,
    lacks_references hk.references rfl rfl rfl, rfl, lacks_actionText rfl, lacks_actionText rfl⟩

/-! ### Indices -/

theorem indexLine_eq (label : String) (i : Index) :
    indexLine label i = "    " ++ label ++ " " ++
      (i.name ++ (" (" ++ (listed (i.columns.map indexColumnText) ++ ")"))) := by
  unfold indexLine
  simp only [String.append_assoc]

/-- An index without a name has none in the dump either. -/
theorem all_indexName {i : Index} (hi : i.IsLegible) : i.name.toList.all isWordChar = true := by
  unfold Index.name
  cases hname : i.ownName with
  | none => rfl
  | some name => exact all_of_isWord (hi.name name hname)

theorem indexLine_eq_iff (label : String) {i j : Index} (hi : i.IsLegible) (hj : j.IsLegible) :
    indexLine label i = indexLine label j ↔ i.LooksLike j := by
  rw [indexLine_eq, indexLine_eq, String.append_right_inj]
  constructor
  · intro h
    obtain ⟨name, h⟩ := cut_at (all_indexName hi) (all_indexName hj) h rfl
    exact ⟨name, (indexColumns_eq_iff hi.columns hj.columns).mp ((String.append_left_inj _).mp h)⟩
  · intro h
    rw [h.name, h.columns]

theorem lacks_indexLine {label : String} {i : Index} (hlabel : lacks '\n' label = true) (hi : i.IsLegible) :
    lacks '\n' (indexLine label i) = true := by
  have hname : lacks '\n' i.name = true := by
    unfold Index.name
    cases hown : i.ownName with
    | none => rfl
    | some name => exact lacks_of_isWord (hi.name name hown) rfl
  have hcolumns : lacks '\n' (listed (i.columns.map indexColumnText)) = true :=
    lacks_listed rfl (List.forall_mem_map.mpr fun c hc => lacks_indexColumnText (hi.columns c hc) rfl rfl)
  simp only [indexLine_eq, lacks_append, Bool.and_eq_true]
  exact ⟨⟨⟨rfl, hlabel⟩, rfl⟩, hname, rfl, hcolumns, rfl⟩

/-! ### Behaviors -/

def nameNotes (b : Behavior) : List String :=
  if b.id = b.name then [] else ["(" ++ b.name ++ ")"]

def markNotes (b : Behavior) : List String :=
  if b.executed then ["[executed]"] else []

/-- What is shown behind the id of a behavior. -/
def behaviorNotes (b : Behavior) : List String :=
  nameNotes b ++ (b.parameters.entries.map parameterText ++ markNotes b)

theorem behaviorLine_eq (indent : String) (b : Behavior) :
    behaviorLine indent b = indent ++ "behavior " ++ (b.id ++ marked " " (behaviorNotes b)) := by
  have hname : (if b.id = b.name then "" else " (" ++ b.name ++ ")") = marked " " (nameNotes b) := by
    unfold nameNotes
    split
    · rfl
    · rw [marked_cons, ← String.append_assoc, ← String.append_assoc, ← String.append_assoc]
      exact String.append_empty.symm
  have hparameters : String.join (b.parameters.entries.map fun p => " " ++ p.1 ++ "=" ++ p.2) =
      marked " " (b.parameters.entries.map parameterText) := by
    simp only [marked, List.map_map, Function.comp_def, parameterText, String.append_assoc]
  have hmark : word b.executed "[executed]" = marked " " (markNotes b) := by
    unfold markNotes
    cases b.executed <;> rfl
  rw [behaviorLine, hname, hparameters, hmark, behaviorNotes, marked_append, marked_append]
  simp only [String.append_assoc]

/-- Whether a note is the name of a behavior. -/
def isNameNote (note : String) : Bool :=
  begins "(" note && lacks '=' note

theorem isNameNote_of_mem {b : Behavior} (hb : b.IsLegible) : ∀ note ∈ nameNotes b, isNameNote note = true := by
  unfold nameNotes
  split
  · exact nofun
  · refine List.forall_mem_singleton.mpr ?_
    rw [String.append_assoc, isNameNote, begins_append, lacks_append, lacks_append, lacks_of_isWord hb.name rfl]
    rfl

theorem lacks_parameterText_sign (p : String × String) : lacks '=' (parameterText p) = false := by
  rw [parameterText, lacks_append, lacks_append, show lacks '=' "=" = false from rfl, Bool.and_false, Bool.false_and]

theorem forall_mem_markNotes {P : String → Prop} {b : Behavior} (h : P "[executed]") :
    ∀ note ∈ markNotes b, P note := by
  unfold markNotes
  split
  · exact List.forall_mem_singleton.mpr h
  · exact nofun

theorem lacks_behaviorNotes {b : Behavior} (hb : b.IsLegible) {x : Char} (hx : x = ' ' ∨ x = '\n') :
    ∀ note ∈ behaviorNotes b, lacks x note = true := by
  have hparameter : ∀ p ∈ b.parameters.entries, lacks x (parameterText p) = true := by
    intro p hp
    rw [parameterText, lacks_append, lacks_append, lacks_of_isUnbroken (hb.parameters p hp).1 hx,
      lacks_of_isUnbroken (hb.parameters p hp).2 hx]
    rcases hx with rfl | rfl <;> rfl
  have hname : ∀ note ∈ nameNotes b, lacks x note = true := by
    unfold nameNotes
    split
    · exact nofun
    · rw [List.forall_mem_singleton, lacks_append, lacks_append]
      rcases hx with rfl | rfl <;> rw [lacks_of_isWord hb.name rfl] <;> rfl
  rw [behaviorNotes, List.forall_mem_append, List.forall_mem_append]
  exact ⟨hname, List.forall_mem_map.mpr hparameter,
    forall_mem_markNotes (by rcases hx with rfl | rfl <;> rfl)⟩

/-- The notes of a behavior are its name, its parameters and the mark, as far as they are there. -/
theorem behaviorNotes_eq_iff {b c : Behavior} (hb : b.IsLegible) (hc : c.IsLegible) (hid : b.id = c.id) :
    behaviorNotes b = behaviorNotes c ↔ b.LooksLike c := by
  constructor
  · intro h
    have hparameters (b : Behavior) : ∀ note ∈ b.parameters.entries.map parameterText, (!lacks '=' note) = true :=
      List.forall_mem_map.mpr fun p _ => by rw [lacks_parameterText_sign, Bool.not_false]
    have hothers (b : Behavior) : ∀ note ∈ b.parameters.entries.map parameterText ++ markNotes b,
        isNameNote note = false :=
      List.forall_mem_append.mpr ⟨List.forall_mem_map.mpr fun p _ => by
        rw [isNameNote, lacks_parameterText_sign, Bool.and_false], forall_mem_markNotes rfl⟩
    have hmark (b : Behavior) : ∀ note ∈ markNotes b, (!lacks '=' note) = false := forall_mem_markNotes rfl
    obtain ⟨hname, hrest⟩ :=
      append_cut_of_forall (isNameNote_of_mem hb) (isNameNote_of_mem hc) (hothers b) (hothers c) h
    obtain ⟨parameters, hexecuted⟩ := append_cut_of_forall (hparameters b) (hparameters c) (hmark b) (hmark c) hrest
    refine ⟨hid, ?_, parameters, ?_⟩
    · unfold nameNotes at hname
      split at hname <;> split at hname
      · rename_i hb' hc'
        exact hb'.symm.trans (hid.trans hc')
      · cases hname
      · cases hname
      · simpa using hname
    · unfold markNotes at hexecuted
      cases hb' : b.executed <;> cases hc' : c.executed <;> simp [hb', hc'] at hexecuted ⊢
  · intro h
    rw [behaviorNotes, behaviorNotes, nameNotes, nameNotes, markNotes, markNotes, h.id, h.name, h.parameters,
      h.executed]

theorem behaviorLine_eq_iff (indent : String) {b c : Behavior} (hb : b.IsLegible) (hc : c.IsLegible) :
    behaviorLine indent b = behaviorLine indent c ↔ b.LooksLike c := by
  rw [behaviorLine_eq, behaviorLine_eq, String.append_right_inj]
  constructor
  · intro h
    obtain ⟨hid, hnotes⟩ := word_cut hb.id hc.id (labelled_marked _ _) (labelled_marked _ _) h rfl
    exact (behaviorNotes_eq_iff hb hc hid).mp ((marked_inj rfl (lacks_behaviorNotes hb (.inl rfl))
      (lacks_behaviorNotes hc (.inl rfl))).mp hnotes)
  · intro h
    rw [h.id, (behaviorNotes_eq_iff hb hc h.id).mpr h]

theorem lacks_behaviorLine {indent : String} {b : Behavior} (hindent : lacks '\n' indent = true) (hb : b.IsLegible) :
    lacks '\n' (behaviorLine indent b) = true := by
  simp only [behaviorLine_eq, lacks_append, Bool.and_eq_true]
  exact ⟨⟨hindent, rfl⟩, lacks_of_isWord hb.id rfl, lacks_marked rfl (lacks_behaviorNotes hb (.inr rfl))⟩

/-! ### Tables -/

/-- The name of a table in SQL, where it is another one. -/
def sqlNameText (t : Table) : String :=
  optionalText " (" (· ++ ")") (if t.sqlName = t.name then none else some t.sqlName)

theorem tableLine_eq (t : Table) :
    tableLine t = "  table " ++ (t.name ++ (sqlNameText t ++ (word t.referenceOnly "reference-only" ++
      (word t.skipSql "skip-sql" ++ (" idMethod=" ++ (t.idMethod.text ++ (" containsForeignPK=" ++
        toString t.containsForeignKey))))))) := by
  have hsql : (if t.sqlName = t.name then "" else " (" ++ t.sqlName ++ ")") = sqlNameText t := by
    unfold sqlNameText
    split
    · rfl
    · exact String.append_assoc
  unfold tableLine
  rw [hsql]
  simp only [String.append_assoc]
  rfl

theorem tableLine_eq_iff {t u : Table} (ht : t.IsLegible) (hu : u.IsLegible) :
    tableLine t = tableLine u ↔ t.name = u.name ∧ t.sqlName = u.sqlName ∧ t.referenceOnly = u.referenceOnly ∧
      t.skipSql = u.skipSql ∧ t.idMethod = u.idMethod ∧ t.containsForeignKey = u.containsForeignKey := by
  rw [tableLine_eq, tableLine_eq, String.append_right_inj]
  constructor
  · intro h
    have hmethod (t : Table) : Labelled [" idMethod="] (" idMethod=" ++ (t.idMethod.text ++ (" containsForeignPK=" ++
      toString t.containsForeignKey))) := labelled_self
    have hskip (t : Table) := (labelled_word t.skipSql "skip-sql").append (hmethod t)
    have hreference (t : Table) := (labelled_word t.referenceOnly "reference-only").append (hskip t)
    have hsql (t : Table) : Labelled _ (sqlNameText t ++ _) := labelled_optionalText.append (hreference t)
    obtain ⟨name, h⟩ := word_cut ht.name hu.name (hsql t) (hsql u) h rfl
    obtain ⟨sqlName, h⟩ : t.sqlName = u.sqlName ∧ _ := by
      obtain ⟨hnone, hnone', h⟩ | ⟨a, b, ha, hb, h⟩ := optional_cut (hreference t) (hreference u) h (by decide) rfl
      · simp only [ite_eq_left_iff, reduceCtorEq, imp_false, Classical.not_not] at hnone hnone'
        exact ⟨hnone.trans (name.trans hnone'.symm), h⟩
      · simp only [Option.ite_none_left_eq_some, Option.some.injEq] at ha hb
        rw [← ha.2, ← hb.2, String.append_assoc, String.append_assoc] at h
        exact word_cut_at ht.sqlName hu.sqlName h rfl
    obtain ⟨referenceOnly, h⟩ := word_cut_flag (hskip t) (hskip u) h rfl
    obtain ⟨skipSql, h⟩ := word_cut_flag (hmethod t) (hmethod u) h rfl
    obtain ⟨idMethod, h⟩ := word_cut_at (isWord_idMethodText _) (isWord_idMethodText _)
      ((String.append_right_inj _).mp h) rfl
    exact ⟨name, sqlName, referenceOnly, skipSql, idMethodText_inj idMethod, toString_inj h⟩
  · rintro ⟨name, sqlName, referenceOnly, skipSql, idMethod, containsForeignKey⟩
    rw [sqlNameText, sqlNameText, name, sqlName, referenceOnly, skipSql, idMethod, containsForeignKey]

theorem lacks_tableLine {t : Table} (ht : t.IsLegible) : lacks '\n' (tableLine t) = true := by
  have hsql : lacks '\n' (sqlNameText t) = true := by
    refine lacks_optionalText fun name hname => ⟨rfl, ?_⟩
    rw [Option.mem_def, Option.ite_none_left_eq_some, Option.some.injEq] at hname
    rw [lacks_append, ← hname.2, lacks_of_isWord ht.sqlName rfl]
    rfl
  simp only [tableLine_eq, lacks_append, Bool.and_eq_true]
  exact ⟨rfl, lacks_of_isWord ht.name rfl, hsql, lacks_word rfl, lacks_word rfl, rfl,
    lacks_of_isWord (isWord_idMethodText _) rfl, rfl, lacks_of_isWord (isWord_toString _) rfl⟩

/-! ### Databases -/

theorem databaseLine_eq (d : Database) :
    databaseLine d = "database " ++ (d.name ++ (" idMethod=" ++ (d.settings.idMethod.text ++ (" heavyIndexing=" ++
      (toString d.settings.heavyIndexing ++ (" identifierQuoting=" ++ (toString d.settings.identifierQuoting ++
        (" stringFormat=" ++ d.settings.stringFormat.text)))))))) := by
  unfold databaseLine
  simp only [String.append_assoc]
  rfl

theorem databaseLine_eq_iff {d e : Database} (hd : d.IsLegible) (he : e.IsLegible) :
    databaseLine d = databaseLine e ↔ d.name = e.name ∧ d.settings.idMethod = e.settings.idMethod ∧
      d.settings.heavyIndexing = e.settings.heavyIndexing ∧
      d.settings.identifierQuoting = e.settings.identifierQuoting ∧
      d.settings.stringFormat = e.settings.stringFormat := by
  rw [databaseLine_eq, databaseLine_eq, String.append_right_inj]
  constructor
  · intro h
    obtain ⟨name, h⟩ := word_cut_at hd.name he.name h rfl
    obtain ⟨idMethod, h⟩ := word_cut_at (isWord_idMethodText _) (isWord_idMethodText _) h rfl
    obtain ⟨heavyIndexing, h⟩ := word_cut_at (isWord_toString _) (isWord_toString _) h rfl
    obtain ⟨identifierQuoting, h⟩ := word_cut_at (isWord_toString _) (isWord_toString _) h rfl
    exact ⟨name, idMethodText_inj idMethod, toString_inj heavyIndexing, toString_inj identifierQuoting,
      stringFormatText_inj h⟩
  · rintro ⟨name, idMethod, heavyIndexing, identifierQuoting, stringFormat⟩
    rw [name, idMethod, heavyIndexing, identifierQuoting, stringFormat]

theorem lacks_databaseLine {d : Database} (hd : d.IsLegible) : lacks '\n' (databaseLine d) = true := by
  simp only [databaseLine_eq, lacks_append, Bool.and_eq_true]
  exact ⟨rfl, lacks_of_isWord hd.name rfl, rfl, lacks_of_isWord (isWord_idMethodText _) rfl, rfl,
    lacks_of_isWord (isWord_toString _) rfl, rfl, lacks_of_isWord (isWord_toString _) rfl, rfl,
    lacks_of_isWord (isWord_stringFormatText _) rfl⟩

end Schemata.Dump
