import Schemata.Proofs.Duplicate
import Schemata.Proofs.Hooks

/-!
# What archiving does to a database

The archive hook on a table of a well-formed database leaves the database alone, because the archive is
there already or because two indices of the archive would have one name, or it appends the archive and
does nothing else. The archive is given part by part.
-/

namespace Schemata

/-! ### Indices whose columns are there -/

namespace Table
variable {t u : Table} {i : Index}

/-- Only its name can be in the way of an index over columns that are there. -/
theorem Supports.checkedIndex_eq (h : t.Supports i) (kind : IndexKind) : t.checkedIndex kind i =
    if t.hasIndexName (i.named t.name kind).name then
      .error (.constraint (.duplicateIndexName (i.named t.name kind).name t.name))
    else .ok (i.named t.name kind) := by
  have hcolumns : i.columnNames.find? (!t.hasColumn ·) = none := by
    refine List.find?_eq_none.mpr fun name hname => ?_
    obtain ⟨c, hc, rfl⟩ := List.mem_map.mp (h.columns name hname)
    simpa [hasColumn] using ⟨c, hc, rfl⟩
  unfold checkedIndex
  rw [if_neg (by simpa using h.nonempty), hcolumns]
  rfl

/-- An index that has a name keeps it. -/
theorem named_of_isSome {kind : IndexKind} (h : i.ownName.isSome = true) (table : String) :
    i.named table kind = i := by
  obtain ⟨name, hname⟩ := Option.isSome_iff_exists.mp h
  rw [Index.named, hname, Option.getD_some, ← hname]

theorem Supports.addIndex_eq (h : t.Supports i) (hnamed : i.ownName.isSome = true) : t.addIndex i =
    if t.hasIndexName i.name then .error (.constraint (.duplicateIndexName i.name t.name))
    else .ok { t with indices := t.indices ++ [i] } := by
  unfold addIndex
  rw [h.checkedIndex_eq, named_of_isSome hnamed]
  split <;> rfl

theorem hasIndexOver_iff {names : List String} :
    t.hasIndexOver names = true ↔ names ∈ t.indices.map (·.columnNames) := by
  simp [hasIndexOver, Index.hasColumns]

end Table

namespace Archivable
variable {b : Behavior} {t u : Table} {us : List Index} {name : String}

/-! ### The indices of an archive -/

/-- The indices that are added are over the columns that lacked one. -/
theorem over_addPlainIndices (h : addPlainIndices t us = .ok u) (names : List String) :
    u.hasIndexOver names = true ↔ t.hasIndexOver names = true ∨ names ∈ us.map (·.columnNames) := by
  induction us generalizing t with
  | nil =>
    cases h
    simp
  | cons i us ih =>
    unfold addPlainIndices at h
    split at h
    · rename_i v hv
      have hstep : v.hasIndexOver names = true ↔ t.hasIndexOver names = true ∨ names = i.columnNames := by
        rcases Table.addMissingIndex_eq_ok.mp hv with ⟨hover, rfl⟩ | ⟨-, hadd⟩
        · exact ⟨Or.inl, fun hor => hor.elim id (· ▸ hover)⟩
        · obtain ⟨j, hj, rfl⟩ := Table.addIndex_eq_ok.mp hadd
          obtain rfl := Table.checkedIndex_named hj
          simp [Table.hasIndexOver_iff]
      rw [ih h, hstep, List.map_cons, List.mem_cons, or_assoc]
    · cases h

/-- What stops the indices is that two have one name. -/
theorem addPlainIndices_error {e : Error} (h : addPlainIndices t us = .error e) (huniques : t.uniques = [])
    (hsupports : ∀ i ∈ us, t.Supports i) (hnamed : ∀ i ∈ us, i.ownName.isSome = true) :
    (∃ i, e = .constraint (.duplicateIndexName i t.name)) ∧ ¬((t.indices ++ us).map (·.name)).Nodup := by
  induction us generalizing t with
  | nil => cases h
  | cons i us ih =>
    obtain ⟨hi, hsupports⟩ := List.forall_mem_cons.mp hsupports
    obtain ⟨hiname, hnamed⟩ := List.forall_mem_cons.mp hnamed
    unfold addPlainIndices Table.addMissingIndex at h
    split at h
    · rename_i v hv
      split at hv
      · cases hv
        obtain ⟨he, hdup⟩ := ih h huniques hsupports hnamed
        refine ⟨he, fun hnodup => hdup (hnodup.sublist ?_)⟩
        exact (List.Sublist.append_left (List.sublist_cons_self i us) _).map _
      · rw [hi.addIndex_eq hiname] at hv
        split at hv
        · cases hv
        · cases hv
          simpa using ih h huniques (fun j hj => (hsupports j hj).of_columns rfl) hnamed
    · rename_i e' he
      cases h
      split at he
      · cases he
      · rw [hi.addIndex_eq hiname] at he
        split at he
        · rename_i htaken
          cases he
          refine ⟨⟨i.name, rfl⟩, fun hnodup => ?_⟩
          -- The name is that of an index, since there are no unique constraints.
          rw [Table.hasIndexName, huniques, List.any_nil, Bool.or_false] at htaken
          obtain ⟨j, hj, hname⟩ := List.any_eq_true.mp htaken
          rw [List.map_append, List.nodup_append] at hnodup
          exact hnodup.2.2 _ (List.mem_map_of_mem hj) _ (List.mem_map_of_mem List.mem_cons_self) (by simpa using hname)
        · cases he

/-! ### The columns of an archive -/

/-- Where columns have distinct names, none of them counts any more. -/
theorem withoutAutoIncrement_eq_map (h : (t.columns.map (·.name)).Nodup) :
    withoutAutoIncrement t = { t with columns := t.columns.map ({ · with autoIncrement := false }) } := by
  have hall : ∀ (names : List String) (t : Table), (t.columns.map (·.name)).Nodup →
      names.foldl (fun t name => t.modifyColumn name ({ · with autoIncrement := false })) t =
        { t with columns := t.columns.map fun c => if c.name ∈ names then { c with autoIncrement := false } else c } := by
    intro names
    induction names with
    | nil =>
      intro t _
      simp
    | cons name names ih =>
      intro t ht
      have hnames : ((t.modifyColumn name ({ · with autoIncrement := false })).columns.map (·.name)) =
          t.columns.map (·.name) :=
        map_modifyFirst (f := fun c : Column => { c with autoIncrement := false }) (fun _ => rfl) t.columns
      rw [List.foldl_cons, ih _ (hnames ▸ ht)]
      simp only [Table.modifyColumn, modifyFirst_eq_map ht, List.map_map]
      congr 1
      refine List.map_congr_left fun c _ => ?_
      rcases eq_or_ne c.name name with hc | hc <;> simp [hc]
  unfold withoutAutoIncrement
  rw [hall _ t h]
  congr 1
  exact List.map_congr_left fun c hc => if_pos (List.mem_map_of_mem hc)

/-- The column for the time of archiving, if it is logged and the table has none of that name. -/
def loggedColumns (b : Behavior) (t : Table) : List Column :=
  match b.parameter? "archived_at_column" with
  | some column =>
    if b.flag "log_archived_at" && !t.hasColumn column then [{ name := column, domain := { type := .timestamp } }]
    else []
  | none => []

theorem addArchivedColumn_ok (b : Behavior) (t : Table) :
    addArchivedColumn t b = .ok { t with columns := t.columns ++ loggedColumns b t } := by
  unfold addArchivedColumn archivedColumn? loggedColumns
  cases b.flag "log_archived_at" with
  | false => cases b.parameter? "archived_at_column" <;> simp
  | true =>
    cases b.parameter? "archived_at_column" with
    | none => simp
    | some column => cases h : t.hasColumn column <;> simp [h, Table.addColumn]

theorem loggedColumns_congr (h : u.columns.map (·.name) = t.columns.map (·.name)) :
    loggedColumns b u = loggedColumns b t := by
  have hsame : ∀ name, u.hasColumn name = t.hasColumn name := by
    intro name
    have hany : ∀ v : Table, v.hasColumn name = (v.columns.map (·.name)).any (· == name) := by
      simp [Table.hasColumn, Function.comp_def]
    rw [hany, hany, h]
  unfold loggedColumns
  simp only [hsame]

/-! ### The archive of a table -/

/-- A column of an archive: it does not count, and nothing points at it. -/
def keptColumn (c : Column) : Column :=
  { c with autoIncrement := false, referrers := [] }

/-- `u` is the archive of `t` under a name. -/
structure IsArchive (b : Behavior) (t : Table) (name : String) (u : Table) : Prop where
  name_eq : u.name = name
  columns : u.columns = t.columns.map keptColumn ++ loggedColumns b t
  foreignKeys : u.foreignKeys = []
  behaviors : u.behaviors = []
  uniques : u.uniques = []
  referrers : u.referrers = []
  containsForeignKey : u.containsForeignKey = false
  settings : u.settings = { t.settings with idMethod := some .none }
  indices : ∀ names, names ∈ u.indices.map (·.columnNames) ↔
    names ∈ t.indices.map (·.columnNames) ∨ names ∈ t.uniques.map (·.columnNames)
  ownNames : u.ownSqlName = none ∧ u.ownCodeName = none
  rest : { u with
    name := t.name
    ownSqlName := t.ownSqlName
    ownCodeName := t.ownCodeName
    columns := t.columns
    foreignKeys := t.foreignKeys
    behaviors := t.behaviors
    indices := t.indices
    uniques := t.uniques
    referrers := t.referrers
    containsForeignKey := t.containsForeignKey
    settings := t.settings } = t

theorem columnNames_map_renamedIndex (old new : String) (is : List Index) :
    (is.map (Table.renamedIndex old new)).map (·.columnNames) = is.map (·.columnNames) := by
  rw [List.map_map]
  exact List.map_congr_left fun i _ => by rw [Function.comp, Table.renamedIndex_eq]; rfl

/-- The copy of a table from which the archive is made. -/
def stripped (t : Table) (name : String) : Table :=
  { t.duplicate name with
    settings := { t.settings with idMethod := some .none }
    foreignKeys := []
    behaviors := []
    uniques := [] }

theorem archive_eq (t : Table) (name : String) (b : Behavior) : archive t name b =
    addPlainIndices (stripped t name) (t.duplicate name).uniques >>= fun v =>
      addArchivedColumn (withoutAutoIncrement v) b := rfl

theorem isArchive_of_addPlainIndices {v : Table} (ht : (t.columns.map (·.name)).Nodup)
    (hv : addPlainIndices (stripped t name) (t.duplicate name).uniques = .ok v) :
    ∃ u, archive t name b = .ok u ∧ IsArchive b t name u := by
  have hover := over_addPlainIndices hv
  obtain ⟨is, rfl⟩ : ∃ is, v = { stripped t name with indices := is } := ⟨_, addPlainIndices_indices hv⟩
  have hnames : (stripped t name).columns.map (·.name) = t.columns.map (·.name) := Table.bare_columnNames t
  have hwithout := withoutAutoIncrement_eq_map (t := { stripped t name with indices := is }) (hnames ▸ ht)
  refine ⟨_, by rw [archive_eq, hv]; exact addArchivedColumn_ok _ _, ?_⟩
  rw [hwithout]
  have hlogged : loggedColumns b
      { { stripped t name with indices := is } with
        columns := (stripped t name).columns.map ({ · with autoIncrement := false }) } = loggedColumns b t := by
    refine loggedColumns_congr ?_
    rw [← hnames, List.map_map]
    rfl
  refine
    { name_eq := rfl
      columns := ?_
      foreignKeys := rfl
      behaviors := rfl
      uniques := rfl
      referrers := rfl
      containsForeignKey := rfl
      settings := rfl
      indices := fun names => ?_
      ownNames := ⟨rfl, rfl⟩
      rest := rfl }
  · have hkept : ((stripped t name).columns.map fun c : Column => { c with autoIncrement := false }) =
        t.columns.map keptColumn := by
      show (t.columns.map (·.clearReferrers)).map _ = _
      rw [List.map_map]
      rfl
    rw [hlogged, ← hkept]
  · have hnew := hover names
    rw [Table.hasIndexOver_iff, Table.hasIndexOver_iff] at hnew
    show names ∈ is.map (·.columnNames) ↔ _
    rw [hnew]
    show names ∈ (t.indices.map _).map _ ∨ names ∈ (t.uniques.map _).map _ ↔ _
    rw [columnNames_map_renamedIndex, columnNames_map_renamedIndex]

/-- A well-formed table has an archive under a name, unless an index that follows the name meets one that stays. -/
theorem archive_cases (h : t.WellFormed) (b : Behavior) (name : String) :
    (∃ u, archive t name b = .ok u ∧ IsArchive b t name u) ∨
      ∃ i, archive t name b = .error (.constraint (.duplicateIndexName i name)) ∧
        Table.Clash t.name name t.indexNames := by
  cases hv : addPlainIndices (stripped t name) (t.duplicate name).uniques with
  | ok v => exact Or.inl (isArchive_of_addPlainIndices h.columns hv)
  | error e =>
    have hcopy := h.isCopy name
    obtain ⟨⟨i, rfl⟩, hdup⟩ := addPlainIndices_error hv rfl
      (fun i hi => (hcopy.uniques i hi).of_columns rfl) fun i hi => hcopy.named i (List.mem_append_right _ hi)
    refine Or.inr ⟨i, by rw [archive_eq, hv]; rfl, ?_⟩
    have hnames : ¬(t.duplicate name).indexNames.Nodup := hdup
    rw [Table.indexNames_duplicate h.named] at hnames
    exact not_not.mp fun hclash => hnames ((Table.nodup_map_renamed h.indexNames).mpr hclash)

/-! ### The hook -/

/-- A parameter stays set, whatever parameters are set. -/
theorem isSome_parameter?_foldl {made : Behavior} (params : List (String × String))
    (h : (made.parameter? name).isSome = true) :
    ((params.foldl (fun b p => b.setParameter p.1 p.2) made).parameter? name).isSome = true := by
  induction params generalizing made with
  | nil => exact h
  | cons p params ih =>
    refine ih ?_
    show ((made.parameters.insert p.1 p.2).get? name).isSome = true
    rw [Dictionary.get?_insert]
    split
    · rfl
    · exact h

section hook
variable {d e : Database}

theorem tableHook_of_hasTable (h : d.hasTable (archiveName b name) = true) : (tableHook b name).Gives d () d := by
  simp only [tableHook, Change.gives_bind, Change.gives_get]
  refine ⟨d, d, ⟨rfl, rfl⟩, ?_⟩
  rw [if_pos h]
  exact Change.gives_pure.mpr ⟨rfl, rfl⟩

/-- Where its name is free, the archive is made and appended. -/
theorem tableHook_eq (hfree : d.hasTable (archiveName b t.name) = false) (ht : d.table? t.name = some t) :
    tableHook b t.name d = (Change.ofExcept (archive t (archiveName b t.name) b) >>= fun u =>
      Change.report (.addingArchive t.name (archiveName b t.name)) >>= fun _ =>
        Change.attempt (·.addTable u) : Edit Database Unit) d := by
  have hget : ∀ f : Database → Edit Database Unit, (Change.get >>= f) d = f d d := fun _ => rfl
  unfold tableHook
  rw [hget, if_neg (by simp [hfree]), ht]

theorem tableHook_of_ok (hfree : d.hasTable (archiveName b t.name) = false) (ht : d.table? t.name = some t)
    (hname : u.name = archiveName b t.name) (hu : archive t (archiveName b t.name) b = .ok u) :
    (tableHook b t.name).Gives d () { d with tables := d.tables ++ [u] } := by
  have hadd : d.addTable u = .ok { d with tables := d.tables ++ [u] } :=
    Database.addTable_eq_ok.mpr ⟨hname ▸ hfree, rfl⟩
  unfold Change.Gives
  rw [tableHook_eq hfree ht, hu]
  show Change.Gives _ d () _
  simp [hadd]

theorem tableHook_of_error {fault : Error} (hfree : d.hasTable (archiveName b t.name) = false)
    (ht : d.table? t.name = some t) (h : archive t (archiveName b t.name) b = .error fault) :
    (tableHook b t.name d).result = .error fault ∧ (tableHook b t.name d).state = d := by
  rw [tableHook_eq hfree ht, h]
  exact ⟨rfl, rfl⟩

/-- What the hook of an archivable behavior does on a table of a well-formed database. Where a table has the name
    of the archive, nothing. Where it fails, nothing either, and the reason is that two indices of the archive
    would have one name. Else it appends the archive. -/
theorem tableHook_exact (hd : d.WellFormed Table.WellFormed) (ht : t ∈ d.tables) {made : Behavior}
    (hmade : Registry.builtin.create "archivable" = .ok made) (params : List (String × String)) :
    let b := params.foldl (fun b p => b.setParameter p.1 p.2) made
    let name := archiveName b t.name
    (b.parameter? "archived_at_column").isSome = true ∧
      (d.hasTable name = true → (tableHook b t.name).Gives d () d) ∧
      (∀ fault, (tableHook b t.name d).result = .error fault →
        (tableHook b t.name d).state = d ∧ Table.Clash t.name name t.indexNames ∧
          ∃ i, fault = .constraint (.duplicateIndexName i name)) ∧
      ∀ e, d.hasTable name = false → (tableHook b t.name).Gives d () e →
        ∃ u, e = { d with tables := d.tables ++ [u] } ∧ IsArchive b t name u := by
  intro b name
  have hfound := Database.table?_name hd.tables ht
  have hcases := archive_cases (hd.inTables t ht) b name
  refine ⟨isSome_parameter?_foldl params ?_, tableHook_of_hasTable, fun fault hfault => ?_, fun e hfree he => ?_⟩
  · obtain rfl := Except.ok.inj hmade
    rfl
  · cases hfree : d.hasTable name with
    | true =>
      have hok := (tableHook_of_hasTable hfree).1
      rw [hok] at hfault
      cases hfault
    | false =>
      rcases hcases with ⟨u, hu, harchive⟩ | ⟨i, hi, hclash⟩
      · have hok := (tableHook_of_ok hfree hfound harchive.name_eq hu).1
        rw [hok] at hfault
        cases hfault
      · obtain ⟨hresult, hstate⟩ := tableHook_of_error hfree hfound hi
        rw [hresult] at hfault
        cases hfault
        exact ⟨hstate, hclash, i, rfl⟩
  · rcases hcases with ⟨u, hu, harchive⟩ | ⟨i, hi, -⟩
    · obtain ⟨-, rfl⟩ := (tableHook_of_ok hfree hfound harchive.name_eq hu).unique he
      exact ⟨u, rfl, harchive⟩
    · have herror := (tableHook_of_error hfree hfound hi).1
      rw [he.1] at herror
      cases herror

end hook

/-! ### An example -/

/-- A painting counts, belongs to a painter, and has a unique title. -/
def painting : Table where
  name := "painting"
  settings := { idMethod := some .native }
  columns :=
    [{ name := "id", domain := { type := .integer }, primaryKey := true, autoIncrement := true, notNull := true },
     { name := "title", referrers := [⟨"label", "names"⟩] },
     { name := "painter" }]
  foreignKeys := [{ name := "by", target := "painter", references := [⟨"painter", "name"⟩], table := "painting" }]
  indices := [{ ownName := some "vault_x", columns := [{ name := "painter" }] }]
  uniques := [{ ownName := some "painting_u_title", columns := [{ name := "title" }] }]

def gallery : Database where
  name := "gallery"
  tables := [painting, { name := "painter", columns := [{ name := "name" }] }]

def vaultParameters : List (String × String) :=
  [("archive_table", "vault"), ("archived_at_column", "stored_at")]

/-- Archivable as the registry creates it. -/
def archivable : Behavior where
  name := "archivable"
  id := "archivable"
  parameters := Dictionary.ofList plugin.defaults

/-- Archivable with an archive and a column of other names. -/
def vaulting : Behavior :=
  vaultParameters.foldl (fun b p => b.setParameter p.1 p.2) archivable

def unloggedParameters : List (String × String) :=
  [("log_archived_at", "false")]

/-- Archivable without the time of archiving. -/
def unlogged : Behavior :=
  unloggedParameters.foldl (fun b p => b.setParameter p.1 p.2) archivable

/-- What the last table of a database shows is what the table shows that was appended. -/
theorem eq_of_appended {d e : Database} {α : Type} {f : Table → α} {x : α}
    (h : e = { d with tables := d.tables ++ [u] }) (hx : e.tables.getLast?.map f = some x) : f u = x := by
  rw [h, List.getLast?_concat] at hx
  exact Option.some.inj hx

/-- The vault logs when a painting was stored. Where nothing is logged, the archive has the columns of the painting
    alone. -/
theorem tableHook_exact_gallery :
    gallery.WellFormed Table.WellFormed ∧ painting ∈ gallery.tables ∧
      Registry.builtin.create "archivable" = .ok archivable ∧ gallery.hasTable "vault" = false ∧
      (∃ u, (tableHook vaulting "painting" gallery).state = { gallery with tables := gallery.tables ++ [u] } ∧
        u.columns.map (fun c => (c.name, c.autoIncrement)) =
          [("id", false), ("title", false), ("painter", false), ("stored_at", false)] ∧
        u.indices.map (·.name) = ["vault_x", "vault_u_title"] ∧ IsArchive vaulting painting "vault" u) ∧
      gallery.hasTable "painting_archive" = false ∧
      ∃ u, (tableHook unlogged "painting" gallery).state = { gallery with tables := gallery.tables ++ [u] } ∧
        u.columns.map (fun c => (c.name, c.autoIncrement)) = [("id", false), ("title", false), ("painter", false)] ∧
        u.indices.map (·.name) = ["vault_x", "painting_archive_u_title"] ∧
        IsArchive unlogged painting "painting_archive" u := by
  have hgallery : gallery.WellFormed Table.WellFormed := by decide
  have hpainting : painting ∈ gallery.tables := List.mem_cons_self
  have hmade : Registry.builtin.create "archivable" = .ok archivable := rfl
  obtain ⟨-, -, -, happends⟩ := tableHook_exact hgallery hpainting hmade vaultParameters
  obtain ⟨-, -, -, happends'⟩ := tableHook_exact hgallery hpainting hmade unloggedParameters
  have hvault : gallery.hasTable "vault" = false := by decide
  have harchive : gallery.hasTable "painting_archive" = false := by decide
  have hvaulting : (tableHook vaulting "painting").Gives gallery () (tableHook vaulting "painting" gallery).state :=
    ⟨by decide, rfl⟩
  have hunlogged : (tableHook unlogged "painting").Gives gallery () (tableHook unlogged "painting" gallery).state :=
    ⟨by decide, rfl⟩
  refine ⟨hgallery, hpainting, hmade, hvault, ?_, harchive, ?_⟩
  · obtain ⟨u, hu, hmeets⟩ := happends _ hvault hvaulting
    refine ⟨u, hu, ?_, ?_, hmeets⟩
    · apply eq_of_appended hu
      decide
    · apply eq_of_appended hu
      decide
  · obtain ⟨u, hu, hmeets⟩ := happends' _ harchive hunlogged
    refine ⟨u, hu, ?_, ?_, hmeets⟩
    · apply eq_of_appended hu
      decide
    · apply eq_of_appended hu
      decide

/-- An index of the painting follows its archive, and meets the one that is called after the vault. -/
example :
    let taken : Table := { painting with uniques := [{ ownName := some "painting_x", columns := [{ name := "title" }] }] }
    let d : Database := { gallery with tables := [taken] }
    d.WellFormed Table.WellFormed ∧
      (tableHook vaulting "painting" d).result = .error (.constraint (.duplicateIndexName "vault_x" "vault")) ∧
      (tableHook vaulting "painting" d).state = d := by
  decide

end Archivable

end Schemata
