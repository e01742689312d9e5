import Schemata.Proofs.Checks
import Schemata.Proofs.TableEdits

/-!
# Heavy indices

Heavy indexing adds one index for each proper suffix of the primary key that has none, and nothing else.
Suffixes of different lengths get names of different lengths, so the new names are in each other's way
never, and in the way of the table's own names only (`heavy_indices_exact`).
-/

namespace Schemata

/-! ### Suffixes -/

theorem properSuffixes_eq {α : Type} (l : List α) :
    properSuffixes l = (List.range' 1 (l.length - 1)).map fun start => l.drop start := by
  induction l with
  | nil => rfl
  | cons a l ih =>
    cases l with
    | nil => rfl
    | cons b rest =>
      have hshift : List.range' 2 rest.length = (List.range' 1 rest.length).map (1 + ·) :=
        (List.map_add_range' 1 rest.length 1).symm
      rw [properSuffixes, ih]
      simp only [List.length_cons, Nat.add_sub_cancel]
      rw [List.range'_succ, hshift, List.map_cons, List.map_map]
      simp [Function.comp_def, Nat.add_comm 1]

theorem mem_properSuffixes {α : Type} {l s : List α} (h : s ∈ properSuffixes l) : s <:+ l ∧ s ≠ [] ∧ s ≠ l := by
  induction l with
  | nil => cases h
  | cons a l ih =>
    cases l with
    | nil => cases h
    | cons b rest =>
      rcases List.mem_cons.mp h with rfl | h
      · exact ⟨List.suffix_cons a _, List.cons_ne_nil b rest, by simp⟩
      · obtain ⟨hsuffix, hne, -⟩ := ih h
        refine ⟨hsuffix.trans (List.suffix_cons a _), hne, ?_⟩
        rintro rfl
        exact absurd hsuffix.length_le (by simp)

/-- Each proper suffix is one of those before it, too. -/
theorem pairwise_properSuffixes {α : Type} (l : List α) :
    (properSuffixes l).Pairwise fun s t => t <:+ s ∧ t ≠ [] ∧ t ≠ s := by
  induction l with
  | nil => exact .nil
  | cons a l ih =>
    cases l with
    | nil => exact .nil
    | cons b rest => exact .cons (fun s hs => mem_properSuffixes hs) ih

/-- A suffix that leaves something out has a shorter text. -/
theorem length_intercalate_lt {s l : List String} (h : s <:+ l) (hne : s ≠ []) (hproper : s ≠ l) :
    ("_".intercalate s).length < ("_".intercalate l).length := by
  induction l with
  | nil => exact absurd (List.suffix_nil.mp h) hne
  | cons a l ih =>
    have hs : s <:+ l := (List.suffix_cons_iff.mp h).resolve_left hproper
    have hl : l ≠ [] := fun hnil => hne (List.suffix_nil.mp (hnil ▸ hs))
    have htext : ("_".intercalate (a :: l)).length = a.length + 1 + ("_".intercalate l).length := by
      rw [String.intercalate_cons_of_ne_nil hl, String.length_append, String.length_append]
      rfl
    by_cases heq : s = l
    · subst heq
      omega
    · have hlt := ih hs heq
      omega

namespace Table
variable {t u : Table} {names : List String} {l : List (List String)} {w : Unit}

/-- The error where the name for an index over some columns is taken. -/
def nameTaken (t : Table) (names : List String) : Error :=
  .constraint (.duplicateIndexName (t.indexOver "i" names).name t.name)

theorem name_indexOver_ne {s : List String} (h : s <:+ names) (hne : s ≠ []) (hproper : s ≠ names) :
    (t.indexOver "i" names).name ≠ (t.indexOver "i" s).name := by
  intro heq
  have hlength := congrArg String.length heq
  simp only [indexOver, Index.name, Option.getD_some, String.length_append] at hlength
  have hlt := length_intercalate_lt h hne hproper
  omega

/-! ### One index -/

theorem named_ofNames (t : Table) (names : List String) :
    (Index.ofNames names).named t.name .index = t.indexOver "i" names :=
  (indexOver_eq t "i" names).symm

/-- An index over columns of the table fails for its name only. -/
theorem addIndex_ofNames (hne : names ≠ []) (hcolumns : ∀ name ∈ names, t.hasColumn name = true) :
    t.addIndex (Index.ofNames names) =
      if !t.hasIndexName (t.indexOver "i" names).name then .ok { t with indices := t.indices ++ [t.indexOver "i" names] }
      else .error (t.nameTaken names) := by
  have hempty : ¬(Index.ofNames names).columns.isEmpty = true := by simpa [Index.ofNames] using hne
  have hfound : (Index.ofNames names).columnNames.find? (!t.hasColumn ·) = none := by
    rw [Index.columnNames_ofNames]
    exact List.find?_eq_none.mpr fun name hname => by simp [hcolumns name hname]
  have hname : (Index.ofNames names).ownName.getD ((Index.ofNames names).defaultName t.name IndexKind.index.marker) =
      (t.indexOver "i" names).name :=
    congrArg Index.name (named_ofNames t names)
  rw [addIndex, checkedIndex, if_neg hempty, hfound]
  dsimp only
  rw [hname]
  cases t.hasIndexName (t.indexOver "i" names).name <;> rfl

/-! ### All of them -/

def nameCheck (t : Table) (names : List String) : Check (List String) :=
  ⟨!t.hasIndexName (t.indexOver "i" names).name, names⟩

theorem addHeavyIndex_of_over (h : t.hasIndexOver names = true) : (addHeavyIndex names).Gives t () t :=
  gives_addHeavyIndex.mpr (addMissingIndex_eq_ok.mpr (Or.inl ⟨by simpa using h, rfl⟩))

theorem meets_addHeavyIndex (h : t.hasIndexOver names = false) (hne : names ≠ [])
    (hcolumns : ∀ name ∈ names, t.hasColumn name = true) :
    (addHeavyIndex names).Meets t.nameTaken t [t.nameCheck names] := by
  refine .of_get ?_
  rw [if_neg (Bool.eq_false_iff.mp h)]
  exact (Change.Meets.attempt (addIndex_ofNames hne hcolumns)).before fun _ u _ =>
    ⟨(), u, Change.gives_report.mpr rfl⟩

theorem gives_addHeavyIndex_new (h : t.hasIndexOver names = false) (hgives : (addHeavyIndex names).Gives t w u) :
    u = { t with indices := t.indices ++ [t.indexOver "i" names] } := by
  rcases addMissingIndex_eq_ok.mp (gives_addHeavyIndex.mp hgives) with ⟨hover, -⟩ | ⟨-, hadd⟩
  · rw [Index.columnNames_ofNames, h] at hover
    cases hover
  · obtain ⟨j, hj, rfl⟩ := addIndex_eq_ok.mp hadd
    rw [checkedIndex_named hj, named_ofNames]

/-- A new index is over its own columns only, and only its own name is taken. -/
theorem hasIndexOver_append {a : List String} (h : a ≠ names) :
    hasIndexOver { t with indices := t.indices ++ [t.indexOver "i" a] } names = t.hasIndexOver names := by
  simp [hasIndexOver, Index.hasColumns, h]

theorem hasIndexName_append {i : Index} {name : String} (h : i.name ≠ name) :
    hasIndexName { t with indices := t.indices ++ [i] } name = t.hasIndexName name := by
  have hname : (i.name == name) = false := by simpa using h
  simp [hasIndexName, hname]

/-! For columns that are still to come, the table with a new index is as good as the one without -/

theorem filter_hasIndexOver_append {a : List String} (h : ∀ b ∈ l, a ≠ b) :
    l.filter (!hasIndexOver { t with indices := t.indices ++ [t.indexOver "i" a] } ·) =
      l.filter (!t.hasIndexOver ·) :=
  List.filter_congr fun b hb => by rw [hasIndexOver_append (h b hb)]

theorem map_nameCheck_append {a : List String}
    (h : ∀ b ∈ l, (t.indexOver "i" a).name ≠ (t.indexOver "i" b).name) :
    l.map (nameCheck { t with indices := t.indices ++ [t.indexOver "i" a] }) = l.map t.nameCheck :=
  List.map_congr_left fun b hb =>
    congrArg (fun taken => Check.mk (!taken) b) (hasIndexName_append (h b hb))

/-- Lists of columns that are not in each other's way are gone through one after another. -/
theorem addHeavyIndex_list (hl : l.Pairwise fun a b => a ≠ b ∧ (t.indexOver "i" a).name ≠ (t.indexOver "i" b).name)
    (hcolumns : ∀ names ∈ l, names ≠ [] ∧ ∀ name ∈ names, t.hasColumn name = true) :
    (Change.forEach addHeavyIndex l).Meets t.nameTaken t ((l.filter (!t.hasIndexOver ·)).map t.nameCheck) ∧
      ∀ u, (Change.forEach addHeavyIndex l).Gives t () u →
        u = { t with indices := t.indices ++ (l.filter (!t.hasIndexOver ·)).map (t.indexOver "i") } := by
  induction l generalizing t with
  | nil =>
    refine ⟨.of_gives (Change.gives_forEach_nil (u := ()).mpr rfl), fun u h => ?_⟩
    obtain rfl := Change.gives_forEach_nil.mp h
    simp
  | cons a l ih =>
    obtain ⟨hapart, hrest⟩ := List.pairwise_cons.mp hl
    obtain ⟨⟨hne, ha⟩, hlater⟩ := List.forall_mem_cons.mp hcolumns
    cases hover : t.hasIndexOver a with
    | true =>
      have hskip := addHeavyIndex_of_over hover
      obtain ⟨hmeets, hgives⟩ := ih hrest hlater
      rw [List.filter_cons_of_neg (by simp [hover])]
      refine ⟨.after hskip hmeets, fun u h => ?_⟩
      obtain ⟨v, hv, hu⟩ := Change.gives_forEach_cons.mp h
      obtain ⟨-, rfl⟩ := hskip.unique hv
      exact hgives u hu
    | false =>
      obtain ⟨hmeets, hgives⟩ := ih (t := { t with indices := t.indices ++ [t.indexOver "i" a] }) hrest hlater
      rw [filter_hasIndexOver_append fun b hb => (hapart b hb).1] at hmeets hgives
      rw [map_nameCheck_append fun b hb => (hapart b (List.mem_of_mem_filter hb)).2] at hmeets
      rw [List.filter_cons_of_pos (by simp [hover])]
      refine ⟨(meets_addHeavyIndex hover hne ha).bind fun _ v hv => ?_, fun u h => ?_⟩
      · obtain rfl := gives_addHeavyIndex_new hover hv
        exact hmeets
      · obtain ⟨v, hv, hu⟩ := Change.gives_forEach_cons.mp h
        obtain rfl := gives_addHeavyIndex_new hover hv
        rw [hgives u hu, List.map_cons, List.append_assoc]
        rfl

/-! ### The suffixes of the primary key -/

/-- The suffixes of the primary key that leave out the first of its columns, or more, but not all. -/
def keySuffixes (t : Table) : List (List String) :=
  (List.range' 1 (t.primaryKeyNames.length - 1)).map fun start => t.primaryKeyNames.drop start

/-- Those of them over whose exact columns there is no index. -/
def missingSuffixes (t : Table) : List (List String) :=
  t.keySuffixes.filter fun names => !t.hasIndexOver names

theorem keySuffixes_eq (t : Table) : t.keySuffixes = properSuffixes t.primaryKeyNames :=
  (properSuffixes_eq t.primaryKeyNames).symm

theorem hasColumn_of_mem_primaryKeyNames {name : String} (h : name ∈ t.primaryKeyNames) : t.hasColumn name = true := by
  obtain ⟨c, hc, rfl⟩ := List.mem_map.mp h
  exact List.any_eq_true.mpr ⟨c, List.mem_of_mem_filter hc, by simp⟩

theorem nodup_missingSuffixes (t : Table) : t.missingSuffixes.Nodup := by
  refine List.Nodup.filter _ ?_
  rw [keySuffixes_eq]
  exact (pairwise_properSuffixes _).imp fun h => h.2.2.symm

theorem length_missingSuffixes (t : Table) : t.missingSuffixes.length ≤ t.primaryKeyNames.length - 1 := by
  have hlength : t.keySuffixes.length = t.primaryKeyNames.length - 1 := by simp [keySuffixes]
  exact hlength ▸ List.length_filter_le _ _

/-- A suffix without an index gets one, and the others keep what they have. -/
theorem countP_missingSuffixes (h : names ∈ t.keySuffixes) :
    (t.indices ++ t.missingSuffixes.map (t.indexOver "i")).countP (·.hasColumns names) =
      max 1 (t.indices.countP (·.hasColumns names)) := by
  have hnew : (t.missingSuffixes.map (t.indexOver "i")).countP (·.hasColumns names) = t.missingSuffixes.count names := by
    rw [List.countP_map]
    exact List.countP_congr fun s _ => by simp [Index.hasColumns]
  rw [List.countP_append, hnew, (nodup_missingSuffixes t).count]
  cases hover : t.hasIndexOver names with
  | true =>
    have hsome : 0 < t.indices.countP (·.hasColumns names) :=
      List.countP_pos_iff.mpr (List.any_eq_true.mp hover)
    rw [if_neg (by simp [missingSuffixes, hover])]
    omega
  | false =>
    have hnone : t.indices.countP (·.hasColumns names) = 0 :=
      List.countP_eq_zero.mpr (List.any_eq_false.mp hover)
    have hmissing : names ∈ t.missingSuffixes := List.mem_filter.mpr ⟨h, by simp [hover]⟩
    rw [if_pos hmissing]
    omega

theorem heavyIndexing_list (t : Table) :
    (Change.forEach addHeavyIndex (properSuffixes t.primaryKeyNames)).Meets t.nameTaken t
        (t.missingSuffixes.map t.nameCheck) ∧
      ∀ u, (Change.forEach addHeavyIndex (properSuffixes t.primaryKeyNames)).Gives t () u →
        u = { t with indices := t.indices ++ t.missingSuffixes.map (t.indexOver "i") } := by
  rw [missingSuffixes, keySuffixes_eq]
  have hapart : (properSuffixes t.primaryKeyNames).Pairwise fun a b =>
      a ≠ b ∧ (t.indexOver "i" a).name ≠ (t.indexOver "i" b).name :=
    (pairwise_properSuffixes _).imp fun ⟨hsuffix, hne, hproper⟩ =>
      ⟨hproper.symm, name_indexOver_ne hsuffix hne hproper⟩
  refine addHeavyIndex_list hapart fun names hnames => ?_
  obtain ⟨hsuffix, hne, -⟩ := mem_properSuffixes hnames
  exact ⟨hne, fun name hname => hasColumn_of_mem_primaryKeyNames (hsuffix.subset hname)⟩

theorem firstFault?_nameChecks (l : List (List String)) :
    firstFault? (l.map t.nameCheck) = l.find? fun names => t.hasIndexName (t.indexOver "i" names).name := by
  rw [firstFault?, List.find?_map, Option.map_map]
  simp [Function.comp_def, nameCheck]

/-- Without heavy indexing nothing changes. With it the indices are followed by one over each suffix that
    was missing, in their order, so that every suffix has as many as before but at least one; the run fails
    exactly where the name for one of these is taken, for the first such one. -/
theorem heavy_indices_exact (t : Table) :
    (t.isHeavyIndexing = false → addHeavyIndices.Gives t () t) ∧
      (t.isHeavyIndexing = true →
        (∀ u, addHeavyIndices.Gives t () u →
          u = { t with indices := t.indices ++ t.missingSuffixes.map (t.indexOver "i") } ∧
            t.missingSuffixes.length ≤ t.primaryKeyNames.length - 1 ∧
            ∀ names ∈ t.keySuffixes,
              u.indices.countP (·.hasColumns names) = max 1 (t.indices.countP (·.hasColumns names))) ∧
        ∀ err, (addHeavyIndices t).result = .error err ↔
          ∃ names, t.missingSuffixes.find? (fun names => t.hasIndexName (t.indexOver "i" names).name) = some names ∧
            err = .constraint (.duplicateIndexName (t.indexOver "i" names).name t.name)) := by
  have hrun : addHeavyIndices t =
      (if t.isHeavyIndexing then Change.forEach addHeavyIndex (properSuffixes t.primaryKeyNames) else pure ()) t := rfl
  obtain ⟨hmeets, hgives⟩ := heavyIndexing_list t
  refine ⟨fun hlight => ?_, fun hheavy => ⟨fun u hu => ?_, fun err => ?_⟩⟩
  · rw [hlight, if_neg Bool.false_ne_true] at hrun
    rw [Change.Gives, hrun]
    exact ⟨rfl, rfl⟩
  · rw [hheavy, if_pos rfl] at hrun
    rw [Change.Gives, hrun] at hu
    obtain rfl := hgives u hu
    exact ⟨rfl, length_missingSuffixes t, fun names hnames => countP_missingSuffixes hnames⟩
  · rw [hheavy, if_pos rfl] at hrun
    rw [hrun, hmeets.error_iff, firstFault?_nameChecks]
    rfl

/-- A table with an index over the last two columns of its primary key, which is spread over the table. -/
def ledger : Table where
  name := "ledger"
  settings := { heavyIndexing := some true }
  columns :=
    [{ name := "year", primaryKey := true }, { name := "book", primaryKey := true }, { name := "note" },
      { name := "page", primaryKey := true }, { name := "line", primaryKey := true }]
  indices :=
    [{ ownName := some "by_page", columns := [{ name := "page" }, { name := "line" }] },
      { ownName := some "by_page_again", columns := [{ name := "page" }, { name := "line" }] },
      { ownName := some "by_note", columns := [{ name := "note" }] }]

/-- The same table, where the name for the index over the last column is taken. -/
def crowdedLedger : Table :=
  { ledger with uniques := [{ ownName := some "ledger_i_line", columns := [{ name := "note" }] }] }

theorem heavy_indices_exact_ledger :
    addHeavyIndices.Gives { ledger with settings := {} } () { ledger with settings := {} } ∧
      (∃ u, addHeavyIndices.Gives ledger () u ∧
        u.indices = ledger.indices ++ [ledger.indexOver "i" ["book", "page", "line"], ledger.indexOver "i" ["line"]] ∧
        ∀ names ∈ ledger.keySuffixes,
          u.indices.countP (·.hasColumns names) = max 1 (ledger.indices.countP (·.hasColumns names))) ∧
      (addHeavyIndices crowdedLedger).result =
        .error (.constraint (.duplicateIndexName "ledger_i_line" "ledger")) := by
  refine ⟨(heavy_indices_exact { ledger with settings := {} }).1 rfl, ?_, ?_⟩
  · have hu : addHeavyIndices.Gives ledger () (addHeavyIndices ledger).state := ⟨rfl, rfl⟩
    obtain ⟨heq, -, hcount⟩ := ((heavy_indices_exact ledger).2 rfl).1 _ hu
    have hmissing : ledger.missingSuffixes = [["book", "page", "line"], ["line"]] := by decide
    exact ⟨_, hu, by rw [heq, hmissing]; rfl, hcount⟩
  · exact (((heavy_indices_exact crowdedLedger).2 rfl).2 _).mpr ⟨["line"], by decide, rfl⟩

end Table

end Schemata
