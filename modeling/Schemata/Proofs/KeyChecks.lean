import Schemata.Proofs.Checks
import Schemata.Proofs.TableOrder

/-!
# The checks on foreign keys

All that can stop the finalization of a database without pending behaviors and heavy indices, on a platform
without rules of its own, are its foreign keys. Which checks they meet can be told from the database as it
is declared (`keyChecks`): for one table after another, first those of its implicit keys, which get their
columns, and then those of all its keys, which are linked.
-/

namespace Schemata

/-! ### The checks -/

/-- What is wrong with a foreign key. -/
inductive KeyFault where
  /-- No table answers to the target of the key. -/
  | noTarget (owner : String) (k : ForeignKey)
  /-- The target of an implicit key has no primary key. -/
  | noPrimaryKey (k : ForeignKey) (foreign : String)
  /-- The column that an implicit key should get is there already. -/
  | columnTaken (owner : String) (k : ForeignKey) (column : String)
  | noLocalColumn (owner : String) (k : ForeignKey) (column : String)
  | noForeignColumn (k : ForeignKey) (foreign column : String)
deriving DecidableEq, Repr

namespace KeyFault

/-- The error that stops a run over the tables of `d`. -/
def error (d : Database) : KeyFault → Error
  | noTarget owner k => .reference (.unknownForeignTable k.name owner k.target d.name d.tableNames)
  | noPrimaryKey k foreign => .constraint (.noForeignPrimaryKey k.name k.table foreign)
  | columnTaken owner k column => .constraint (.synthesizedColumnExists column k.name owner)
  | noLocalColumn owner k column => .reference (.unknownLocalColumn k.name owner column)
  | noForeignColumn k foreign column => .reference (.unknownForeignColumn k.name k.table foreign column)

/-- Whether an implicit key cannot get its columns. -/
def isConstraint : KeyFault → Bool
  | noPrimaryKey _ _ | columnTaken _ _ _ => true
  | noTarget _ _ | noLocalColumn _ _ _ | noForeignColumn _ _ _ => false

end KeyFault

namespace Database

/-- The names of the columns that an implicit key gets: its own name and that of a column of the foreign primary key,
    joined in camel case. -/
def newColumns (d : Database) (k : ForeignKey) : List String :=
  (((d.target? k).map (·.primaryKey)).getD []).map fun c => Text.lowerFirst k.name ++ Text.upperFirst c.name

/-- The names of the columns that a table gets for its implicit keys. -/
def implicitNames (d : Database) (t : Table) : List String :=
  (t.foreignKeys.filter (·.isImplicit)).flatMap d.newColumns

/-- New columns `names`, where the columns `taken` are there already. -/
def freshChecks (owner : String) (k : ForeignKey) : List String → List String → List (Check KeyFault)
  | _, [] => []
  | taken, name :: names =>
    ⟨!taken.contains name, .columnTaken owner k name⟩ :: freshChecks owner k (taken ++ [name]) names

/-- One implicit key. -/
def completionChecks (d : Database) (owner : String) (taken : List String) (k : ForeignKey) : List (Check KeyFault) :=
  match d.target? k with
  | none => [⟨false, .noTarget owner k⟩]
  | some foreign => ⟨true, .noTarget owner k⟩ :: ⟨foreign.hasPrimaryKey, .noPrimaryKey k foreign.name⟩ ::
      freshChecks owner k taken (d.newColumns k)

/-- Implicit keys one after another: the columns of each are taken for the later ones. -/
def implicitChecks (d : Database) (owner : String) : List String → List ForeignKey → List (Check KeyFault)
  | _, [] => []
  | taken, k :: ks => d.completionChecks owner taken k ++ implicitChecks d owner (taken ++ d.newColumns k) ks

/-- Whether table `t` at position `j` has a column when the table at position `i` is linked. -/
def hasColumnAt (d : Database) (i j : Nat) (t : Table) (name : String) : Bool :=
  t.hasColumn name || (decide (j ≤ i) && (d.implicitNames t).contains name)

/-- One key of table `t` at position `i`, which is linked. -/
def linkChecks (d : Database) (i : Nat) (t : Table) (k : ForeignKey) : List (Check KeyFault) :=
  match d.resolve? k with
  | none => [⟨false, .noTarget t.name k⟩]
  | some j =>
    match d.tables[j]? with
    | none => []
    | some foreign => ⟨true, .noTarget t.name k⟩ ::
        (k.localColumns.map fun name => ⟨d.hasColumnAt i i t name, .noLocalColumn t.name k name⟩) ++
        k.foreignColumns.map fun name => ⟨d.hasColumnAt i j foreign name, .noForeignColumn k foreign.name name⟩

/-- Table `t` at position `i`. -/
def tableChecks (d : Database) (i : Nat) (t : Table) : List (Check KeyFault) :=
  d.implicitChecks t.name (t.columns.map (·.name)) (t.foreignKeys.filter (·.isImplicit)) ++
    (t.foreignKeys.map d.completedKey).flatMap (d.linkChecks i t)

/-- All checks on foreign keys, in the order in which finalization meets them. -/
def keyChecks (d : Database) : List (Check KeyFault) :=
  (List.range d.tables.length).flatMap fun i => (d.tables[i]?.map (d.tableChecks i)).getD []

end Database

/-! ### Columns that tables get -/

namespace Table
variable {t u : Table}

theorem contains_columnNames (t : Table) (name : String) :
    (t.columns.map (·.name)).contains name = t.hasColumn name := by
  rw [Bool.eq_iff_iff]
  simp [hasColumn]

theorem columnNames_completeKey {key : String} {pk : List Column} (h : (completeKey key pk).Gives t () u) :
    u.columns.map (·.name) = t.columns.map (·.name) ++ pk.map fun c => implicitColumnName key c.name := by
  simp only [completeKey, Change.gives_bind, Change.gives_modify] at h
  obtain ⟨_, v, hcols, rfl⟩ := h
  obtain ⟨-, rfl⟩ := gives_addImplicitColumns hcols
  simp [modifyForeignKey, implicitColumn]

theorem columns_addHeavyIndices (h : addHeavyIndices.Gives t () u) : u.columns = t.columns := by
  rw [rest_addHeavyIndices h]

/-- Dropping an id method cannot fail. -/
theorem exists_dropUnusedIdMethod (t : Table) :
    ∃ u, dropUnusedIdMethod.Gives t () u ∧ u.columns = t.columns := by
  simp only [dropUnusedIdMethod, Change.gives_bind, Change.gives_get]
  by_cases h : (t.idMethod = .native && !t.hasAutoIncrement) = true
  · refine ⟨{ t with settings := { t.settings with idMethod := some .none } }, ⟨t, t, ⟨rfl, rfl⟩, ?_⟩, rfl⟩
    rw [if_pos h]
    simp
  · refine ⟨t, ⟨t, t, ⟨rfl, rfl⟩, ?_⟩, rfl⟩
    rw [if_neg h]
    simp

end Table

namespace Database
variable {d s e : Database} {p : Platform} {pos n : Nat} {t u v : Table} {k : ForeignKey} {ks : List ForeignKey}
  {w : Unit}

theorem newColumns_eq {foreign : Table} (h : d.target? k = some foreign) :
    d.newColumns k = foreign.primaryKey.map fun c => implicitColumnName k.name c.name := by
  rw [newColumns, h]
  rfl

theorem CompletesKeys.columnNames (h : d.CompletesKeys ks t u) :
    u.columns.map (·.name) = t.columns.map (·.name) ++ ks.flatMap d.newColumns := by
  induction h with
  | nil t => simp
  | cons target _ first _ ih =>
    rw [ih, Table.columnNames_completeKey first, List.flatMap_cons, newColumns_eq target, List.append_assoc]

theorem CompletesKeys.hasColumn (h : d.CompletesKeys ks t u) (name : String) :
    u.hasColumn name = (t.hasColumn name || (ks.flatMap d.newColumns).contains name) := by
  rw [← Table.contains_columnNames, h.columnNames, ← Table.contains_columnNames, List.contains_append]

/-- Of columns, a table gets those for its implicit keys. -/
theorem Alone.hasColumn (h : d.Alone p t u) (name : String) :
    u.hasColumn name = (t.hasColumn name || (d.implicitNames t).contains name) := by
  obtain ⟨t₁, t₂, v, h₁, h₂, h₃, hu⟩ := h
  have hk : t₂.foreignKeys = t.foreignKeys := by
    rw [Table.foreignKeys_dropUnusedIdMethod h₂, Table.foreignKeys_addHeavyIndices h₁]
  obtain ⟨t₃, hdrop, hcolumns⟩ := Table.exists_dropUnusedIdMethod t₁
  have hc : t₂.columns = t.columns := by
    rw [(hdrop.unique h₂).2, hcolumns, Table.columns_addHeavyIndices h₁]
  have hv : u.columns = v.columns := by
    rw [(Table.gives_addMissingIndices id (fun _ _ _ => Table.gives_addKeyIndex.mp) hu).2.1]
  have hcol : ∀ {x y : Table}, x.columns = y.columns → x.hasColumn name = y.hasColumn name := fun h => by
    rw [Table.hasColumn, h, Table.hasColumn]
  rw [hcol hv, h₃.hasColumn, hcol hc, hk]
  rfl

/-! ### Completing keys -/

theorem meets_editAt {err : KeyFault → Error} {c : Edit Table Unit} {cs : List (Check KeyFault)}
    (ht : s.tables[pos]? = some t) (h : c.Meets err t cs) : (editAt pos c).Meets err s cs where
  succeeds hf := by
    obtain ⟨_, u, hu⟩ := h.succeeds hf
    exact ⟨(), _, (gives_editAt_of_getElem? ht).mpr ⟨u, hu, rfl⟩⟩
  fails f hf := by
    have hresult : (editAt pos c s).result = (c t).result := by
      show (Change.atPosition pos c s.tables).result = _
      rw [Change.atPosition, ht]
    rw [hresult]
    exact h.fails f hf

theorem meets_addImplicitColumn {k : ForeignKey} {c : Column} :
    (Table.addImplicitColumn k.name c).Meets (KeyFault.error d) u
      [⟨!(u.columns.map (·.name)).contains (implicitColumnName k.name c.name),
        .columnTaken u.name k (implicitColumnName k.name c.name)⟩] := by
  refine .of_get ?_
  rw [Table.contains_columnNames]
  cases hcol : u.hasColumn (implicitColumnName k.name c.name) with
  | true =>
    dsimp only
    rw [if_pos hcol]
    exact .fail (KeyFault.columnTaken u.name k _)
  | false =>
    refine (Change.Meets.of_gives (a := ()) (t := { u with columns := u.columns ++ [Table.implicitColumn k.name c] })
      ?_).cons_true _
    have hadd : u.addColumn (Table.implicitColumn k.name c) =
        .ok { u with columns := u.columns ++ [Table.implicitColumn k.name c] } := Table.addColumn_eq_ok.mpr ⟨hcol, rfl⟩
    simp [hcol, hadd]

theorem meets_addImplicitColumns {k : ForeignKey} {pk : List Column} :
    (Change.forEach (Table.addImplicitColumn k.name) pk).Meets (KeyFault.error d) u
      (freshChecks u.name k (u.columns.map (·.name)) (pk.map fun c => implicitColumnName k.name c.name)) := by
  induction pk generalizing u with
  | nil => exact .of_gives (Change.gives_forEach_nil (u := ()).mpr rfl)
  | cons c pk ih =>
    refine Change.Meets.bind (meets_addImplicitColumn (c := c)) fun _ v hv => ?_
    obtain ⟨-, rfl⟩ := Table.addColumn_eq_ok.mp (Table.gives_addImplicitColumn.mp hv)
    have hrest := ih (u := { u with columns := u.columns ++ [Table.implicitColumn k.name c] })
    rwa [List.map_append] at hrest

theorem Grows.name (h : d.Grows e) : e.name = d.name := by
  have := congrArg Database.name h.rest
  exact this

theorem meets_completeKey (hg : d.Grows s) (ht : s.tables[pos]? = some u) :
    (completeKey pos k).Meets (KeyFault.error d) s (d.completionChecks u.name (u.columns.map (·.name)) k) := by
  refine .of_get ?_
  unfold completionChecks
  cases htarget : d.target? k with
  | none =>
    have hres : s.resolve? k = none := by
      rw [hg.resolve?]
      cases hres : d.resolve? k with
      | none => rfl
      | some j =>
        have hj := List.getElem?_eq_getElem (resolve?_lt hres)
        have hsome := target?_eq_some.mpr ⟨j, hres, hj⟩
        rw [htarget] at hsome
        cases hsome
    refine .cons_false ?_ _
    have herror : s.resolve pos k = .error (KeyFault.error d (.noTarget u.name k)) := by
      rw [resolve, hres, ht]
      simp only [KeyFault.error, hg.name, hg.tableNames]
      rfl
    rw [herror]
    rfl
  | some foreign =>
    obtain ⟨foreign', htarget', hgf⟩ := hg.target? htarget
    obtain ⟨j, hres, hforeign'⟩ := target?_eq_some.mp htarget'
    refine (Change.Meets.after (Change.gives_ofExcept.mpr ⟨resolve_eq_ok.mpr hres, rfl⟩) ?_).cons_true _
    rw [hforeign']
    dsimp only
    rw [hgf.hasPrimaryKey, Table.completeKey_congr hgf.primaryKey]
    cases foreign.hasPrimaryKey with
    | false =>
      refine .cons_false ?_ _
      rw [← hgf.name]
      rfl
    | true =>
      rw [newColumns_eq htarget]
      refine (meets_editAt ht (meets_addImplicitColumns.before fun _ v _ => ?_)).cons_true _
      exact ⟨(), _, Change.gives_modify.mpr rfl⟩

theorem meets_completeKeyList (hg : d.Grows s) (ht : s.tables[pos]? = some u) :
    (Change.forEach (completeKey pos) ks).Meets (KeyFault.error d) s
      (d.implicitChecks u.name (u.columns.map (·.name)) ks) := by
  induction ks generalizing s u with
  | nil => exact .of_gives (Change.gives_forEach_nil (u := ()).mpr rfl)
  | cons k ks ih =>
    refine Change.Meets.bind (meets_completeKey hg ht) fun _ e he => ?_
    obtain ⟨foreign, htarget, -, hedit⟩ := (gives_completeKey_iff hg).mp he
    obtain ⟨v, hv, rfl⟩ := (gives_editAt_of_getElem? ht).mp hedit
    obtain ⟨hext, -⟩ := Table.gives_completeKey hv
    obtain ⟨hv', hgv, -⟩ := extend_table ht hext rfl
    have hrest := ih (hg.trans hgv.grows) hv'
    rwa [Table.columnNames_completeKey hv, ← newColumns_eq htarget, (Table.Grows.of_extends hext).name] at hrest

/-! ### Linking keys -/

/-- The database at hand while the keys of the table at position `i` are linked: tables have the columns that
    they get by then. -/
structure Linking (d : Database) (i : Nat) (s : Database) : Prop where
  grows : d.Grows s
  hasColumn : ∀ (j : Nat) t u, d.tables[j]? = some t → s.tables[j]? = some u →
    ∀ name, u.hasColumn name = d.hasColumnAt i j t name

theorem Linking.of_bare (h : d.Linking pos s) (hb : e.bare = s.bare) : d.Linking pos e where
  grows := h.grows.trans (.of_bare hb)
  hasColumn j t u ht hu name := by
    obtain ⟨v, hv, hvu⟩ := getElem?_bare hb.symm hu
    rw [← bare_hasColumn_congr hvu, h.hasColumn j t v ht hv]

theorem bare_linkKey (ht : s.tables[pos]? = some t) (h : (linkKey pos k).Gives s w e) : e.bare = s.bare := by
  obtain ⟨j, foreign, -, hforeign, -, -, rfl⟩ := (gives_linkKey ht).mp h
  rw [bare_set, Table.bare_link, ← bare_set]
  rw [← List.getElem?_eq_some_iff.mp hforeign |>.2, List.set_getElem_self]

theorem meets_linkKey (h : d.Linking pos s) (ht : d.tables[pos]? = some t) :
    (linkKey pos k).Meets (KeyFault.error d) s (d.linkChecks pos t k) := by
  refine .of_get ?_
  obtain ⟨own, hown, hgo⟩ := getElem?_of_forall₂ h.grows.tables ht
  unfold linkChecks
  cases hres : d.resolve? k with
  | none =>
    refine .cons_false ?_ _
    have herror : s.resolve pos k = .error (KeyFault.error d (.noTarget t.name k)) := by
      rw [resolve, h.grows.resolve?, hres, hown]
      simp only [KeyFault.error, h.grows.name, h.grows.tableNames, ← hgo.name]
      rfl
    rw [herror]
    rfl
  | some j =>
    obtain ⟨far, hfar⟩ : ∃ far, d.tables[j]? = some far := ⟨_, List.getElem?_eq_getElem (resolve?_lt hres)⟩
    obtain ⟨foreign, hforeign, hgf⟩ := getElem?_of_forall₂ h.grows.tables hfar
    have hto : s.resolve pos k = .ok j := resolve_eq_ok.mpr (by rw [h.grows.resolve?, hres])
    simp only [hfar, List.cons_append]
    refine (Change.Meets.after (Change.gives_ofExcept.mpr ⟨hto, rfl⟩) ?_).cons_true _
    simp only [hown, hforeign, h.hasColumn pos t own ht hown, h.hasColumn j far foreign hfar hforeign, hgo.name, hgf.name]
    refine .of_find? (fun hlocal => ?_) fun name hlocal => ?_
    · simp only [hlocal]
      rw [← List.append_nil (k.foreignColumns.map _)]
      refine .of_find? (fun hcolumns => ?_) fun name hcolumns => ?_
      · simp only [hcolumns]
        exact .of_gives (a := ()) (t := s.modifyTableAt j (·.link k)) (by simp)
      · simp only [hcolumns]
        rfl
    · simp only [hlocal]
      rfl

/-- The keys of a table meet their checks, and a flag of the table is set at the end. -/
theorem meets_linkKeys (h : d.Linking pos s) (ht : d.tables[pos]? = some t) (hv : s.tables[pos]? = some v) :
    (linkKeys pos).Meets (KeyFault.error d) s (v.foreignKeys.flatMap (d.linkChecks pos t)) := by
  refine .of_get ?_
  rw [hv]
  dsimp only
  refine .before (.forEach (I := d.Linking pos) (fun k _ f hf => ⟨meets_linkKey hf ht, fun e he => ?_⟩) h)
    fun _ f _ => ⟨(), _, Change.gives_modify.mpr rfl⟩
  obtain ⟨own, hown, -⟩ := getElem?_of_forall₂ hf.grows.tables ht
  exact hf.of_bare (bare_linkKey hown he)

/-! ### Tables -/

theorem gives_addKeyIndices_plain {kind : PlatformKind} : (addKeyIndices (.plain kind) pos).Gives s () s := by
  simp only [addKeyIndices, Change.gives_bind, Change.gives_get]
  refine ⟨s, s, ⟨rfl, rfl⟩, ?_⟩
  cases ht : s.tables[pos]? with
  | none => exact Change.gives_pure.mpr ⟨rfl, rfl⟩
  | some t => exact editAt_self ht (Change.gives_forEach_nil.mpr rfl)

/-- With table `v` completed at its turn, the database at hand is ready for linking. -/
theorem Reached.linking (h : d.Reached p n s) (ht : d.tables[n]? = some t) (hg : t.Grows v)
    (hv : ∀ name, v.hasColumn name = (t.hasColumn name || (d.implicitNames t).contains name)) :
    d.Linking n { s with tables := s.tables.set n v } where
  grows := by
    obtain ⟨v', hv', hbare⟩ := h.rest n (Nat.le_refl n) t ht
    exact h.grows.trans (GrowsAt.of_set hv' ((Table.Grows.of_bare hbare.symm).trans hg)).grows
  hasColumn j t' u ht' hu name := by
    rw [hasColumnAt]
    rcases getElem?_set_cases hu with ⟨rfl, rfl⟩ | ⟨hj, hu⟩
    · rw [ht] at ht'
      cases ht'
      rw [hv, decide_eq_true (Nat.le_refl j), Bool.true_and]
    · rcases Nat.lt_or_gt_of_ne hj with hlt | hgt
      · obtain ⟨w, v', hw, hv', hbare⟩ := h.done j hlt t' ht'
        rw [hu] at hv'
        cases hv'
        rw [bare_hasColumn_congr hbare, hw.hasColumn, decide_eq_true (Nat.le_of_lt hlt), Bool.true_and]
      · obtain ⟨v', hv', hbare⟩ := h.rest j (Nat.le_of_lt hgt) t' ht'
        rw [hu] at hv'
        cases hv'
        rw [bare_hasColumn_congr hbare, decide_eq_false (Nat.not_le_of_gt hgt), Bool.false_and, Bool.or_false]

/-- A table meets its checks when a run comes to it. -/
theorem Reached.meets_finalizeTable {kind : PlatformKind} (h : d.Reached (.plain kind) n s) (ht : d.tables[n]? = some t)
    (hheavy : t.isHeavyIndexing = false) (hd : (t.foreignKeys.map (·.name)).Nodup) :
    (finalizeTable (.plain kind) n).Meets (KeyFault.error d) s (d.tableChecks n t) := by
  obtain ⟨t₁, ht₁, hbare⟩ := h.rest n (Nat.le_refl n) t ht
  -- Up to the implicit keys nothing but the id method changes.
  have hself : Table.addHeavyIndices.Gives t₁ () t₁ :=
    Table.addHeavyIndices_self fun hheavy₁ => by
      rw [← Table.bare_isHeavyIndexing, hbare, Table.bare_isHeavyIndexing, hheavy] at hheavy₁
      cases hheavy₁
  obtain ⟨t₂, hdrop, hcolumns⟩ := Table.exists_dropUnusedIdMethod t₁
  have hext : t₁.Extends t₂ := (Table.gives_dropUnusedIdMethod hdrop).1
  obtain ⟨ht₂, hg₂, -⟩ := extend_table ht₁ hext rfl
  have hkeys : t₂.foreignKeys = t.foreignKeys := by
    rw [Table.foreignKeys_dropUnusedIdMethod hdrop, Table.foreignKeys_of_bare hbare]
  have hnames : t₂.columns.map (·.name) = t.columns.map (·.name) := by
    rw [hcolumns, ← Table.bare_columnNames, hbare, Table.bare_columnNames]
  have hname : t₂.name = t.name := (Table.Grows.of_extends hext).name.trans (Table.Grows.of_bare hbare).name
  refine .after (a := ()) (editAt_self ht₁ hself) ?_
  refine .after (a := ()) ((gives_editAt_of_getElem? ht₁).mpr ⟨_, hdrop, rfl⟩) ?_
  refine .bind ?_ fun _ s' hs' => ?_
  · refine .of_get ?_
    rw [ht₂, ← hname, ← hnames, ← hkeys]
    exact meets_completeKeyList (h.grows.trans hg₂.grows) ht₂
  · obtain ⟨v, hv, rfl⟩ := (gives_completeKeyList_iff (h.grows.trans hg₂.grows) ht₂).mp ((completeKeys_eq ht₂).mp hs')
    simp only [List.set_set]
    have halone : d.Alone (.plain kind) t₁ v :=
      ⟨t₁, t₂, v, hself, hdrop, hv, Change.gives_forEach_nil.mpr rfl⟩
    have hkeys₁ : t₁.foreignKeys = t.foreignKeys := Table.foreignKeys_of_bare hbare
    have hlinking : d.Linking n { s with tables := s.tables.set n v } := by
      refine h.linking ht ((Table.Grows.of_bare hbare).trans (.of_extends halone.grows)) fun name => ?_
      rw [halone.hasColumn, bare_hasColumn_congr hbare, implicitNames, hkeys₁, implicitNames]
    rw [← hkeys₁, ← halone.foreignKeys (hkeys₁ ▸ hd)]
    have hv' : ({ s with tables := s.tables.set n v } : Database).tables[n]? = some v :=
      List.getElem?_set_self (List.getElem?_eq_some_iff.mp ht₁).1
    refine (meets_linkKeys hlinking ht hv').before fun _ f _ => ⟨(), f, ?_⟩
    refine Change.gives_bind.mpr ⟨(), f, gives_addKeyIndices_plain, ?_⟩
    cases hf : f.tables[n]? with
    | none => exact gives_editAt.mpr (.inl ⟨hf, rfl⟩)
    | some x => exact editAt_self hf (Table.gives_warnWithoutKey.mpr rfl)

/-- A run over the tables meets all checks on foreign keys. -/
theorem meets_finalizeTables {kind : PlatformKind} (hheavy : ∀ t ∈ d.tables, t.isHeavyIndexing = false)
    (hd : ∀ t ∈ d.tables, (t.foreignKeys.map (·.name)).Nodup) :
    (finalizeTables (.plain kind)).Meets (KeyFault.error d) d d.keyChecks := by
  refine .of_get (.forEach_range (fun n s => d.Reached (.plain kind) n s) (fun pos hpos s hs => ?_) (.zero d))
  have ht := List.getElem?_eq_getElem hpos
  have hmem := List.getElem_mem hpos
  rw [ht]
  exact ⟨hs.meets_finalizeTable ht (hheavy _ hmem) (hd _ hmem), fun t hst => (hs.step ht hst).1⟩

end Database

end Schemata
