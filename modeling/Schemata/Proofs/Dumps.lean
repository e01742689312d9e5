import Schemata.Proofs.DumpLines

/-!
# Dumps of schemas

The lines of a dump begin with what they are about, so the lines of a kind are cut before the next kind, a table before
the next table, and a database at the empty line behind it. From equal dumps two schemas follow that look alike, and
schemas that look alike have equal dumps.
-/

namespace Schemata

namespace Dump

open Text

variable {α : Type} {k : String} {ks ls xs ys rs ss : List String}

/-! ### Kinds of lines -/

/-- Each of the lines begins with one of the labels. -/
def AreKinds (ks lines : List String) : Prop :=
  ∀ line ∈ lines, ∃ k ∈ ks, begins k line = true

theorem areKinds_map {f : α → String} (h : ∀ x, begins k (f x) = true) (items : List α) :
    AreKinds [k] (items.map f) :=
  List.forall_mem_map.mpr fun x _ => ⟨k, List.mem_singleton_self k, h x⟩

theorem AreKinds.append (hx : AreKinds ks xs) (hr : AreKinds ls rs) : AreKinds (ks ++ ls) (xs ++ rs) := by
  intro line hline
  rcases List.mem_append.mp hline with hline | hline
  · obtain ⟨k, hk, hbegins⟩ := hx line hline
    exact ⟨k, List.mem_append_left _ hk, hbegins⟩
  · obtain ⟨k, hk, hbegins⟩ := hr line hline
    exact ⟨k, List.mem_append_right _ hk, hbegins⟩

theorem AreKinds.begins_eq_false (h : AreKinds ks xs) (hks : ks.all (apart k) = true) :
    ∀ line ∈ xs, begins k line = false := by
  intro line hline
  obtain ⟨l, hl, hbegins⟩ := h line hline
  exact Text.begins_eq_false hbegins (List.all_eq_true.mp hks l hl)

/-- The lines of a kind are cut before lines of other kinds. -/
theorem lines_cut (hx : AreKinds [k] xs) (hy : AreKinds [k] ys) (hr : AreKinds ks rs) (hs : AreKinds ks ss)
    (h : xs ++ rs = ys ++ ss) (hks : ks.all (apart k) = true) : xs = ys ∧ rs = ss := by
  have hkind {xs : List String} (hx : AreKinds [k] xs) : ∀ line ∈ xs, begins k line = true := by
    intro line hline
    obtain ⟨l, hl, hbegins⟩ := hx line hline
    exact List.mem_singleton.mp hl ▸ hbegins
  exact append_cut_of_forall (hkind hx) (hkind hy) (hr.begins_eq_false hks) (hs.begins_eq_false hks) h

/-! ### Tables -/

def referrerLines (ks : List KeyId) : List String :=
  if ks.isEmpty then [] else ["    referrers " ++ keyIds ks]

theorem referrerLines_eq_iff {ks ls : List KeyId} (hk : ∀ k ∈ ks, k.IsLegible) (hl : ∀ l ∈ ls, l.IsLegible) :
    referrerLines ks = referrerLines ls ↔ ks = ls := by
  refine ⟨fun h => ?_, congrArg referrerLines⟩
  match ks, ls with
  | [], [] => rfl
  | [], l :: ls => cases h
  | k :: ks, [] => cases h
  | k :: ks, l :: ls =>
    exact (keyIds_eq_iff hk hl).mp ((String.append_right_inj _).mp (List.singleton_inj.mp h))

/-- The lines below the one of the table. -/
def innerLines (t : Table) : List String :=
  t.columns.map columnLine ++ (t.foreignKeys.map foreignKeyLine ++ (t.indices.map (indexLine "index") ++
    (t.uniques.map (indexLine "unique") ++ (t.behaviors.map (behaviorLine "    ") ++ referrerLines t.referrers))))

theorem tableLines_eq (t : Table) : tableLines t = tableLine t :: innerLines t := by
  unfold tableLines innerLines referrerLines
  simp only [List.cons_append, List.append_assoc]

theorem areKinds_columnLines : ∀ columns : List Column, AreKinds ["    column "] (columns.map columnLine) :=
  areKinds_map fun c => columnLine_eq c ▸ begins_append

theorem areKinds_foreignKeyLines :
    ∀ keys : List ForeignKey, AreKinds ["    foreignKey "] (keys.map foreignKeyLine) :=
  areKinds_map fun k => foreignKeyLine_eq k ▸ begins_append

theorem areKinds_indexLines (label : String) :
    ∀ indices : List Index, AreKinds ["    " ++ label ++ " "] (indices.map (indexLine label)) :=
  areKinds_map fun i => indexLine_eq label i ▸ begins_append

theorem areKinds_behaviorLines (indent : String) :
    ∀ behaviors : List Behavior, AreKinds [indent ++ "behavior "] (behaviors.map (behaviorLine indent)) :=
  areKinds_map fun b => behaviorLine_eq indent b ▸ begins_append

theorem areKinds_referrerLines (ks : List KeyId) : AreKinds ["    referrers "] (referrerLines ks) := by
  unfold referrerLines
  split
  · exact nofun
  · exact List.forall_mem_singleton.mpr ⟨_, List.mem_singleton_self _, begins_append⟩

/-- The kinds of lines below the one of a table. -/
def innerKinds : List String :=
  ["    column ", "    foreignKey ", "    index ", "    unique ", "    behavior ", "    referrers "]

theorem areKinds_innerLines (t : Table) : AreKinds innerKinds (innerLines t) :=
  (areKinds_columnLines _).append ((areKinds_foreignKeyLines _).append ((areKinds_indexLines "index" _).append
    ((areKinds_indexLines "unique" _).append ((areKinds_behaviorLines "    " _).append (areKinds_referrerLines _)))))

theorem tableLines_eq_iff {t u : Table} (ht : t.IsLegible) (hu : u.IsLegible) :
    tableLines t = tableLines u ↔ t.LooksLike Column.LooksLike u := by
  rw [tableLines_eq, tableLines_eq, List.cons.injEq, tableLine_eq_iff ht hu]
  have hcolumns := map_eq_iff_forall₂ (fun _ _ => columnLine_eq_iff) ht.columns hu.columns
  have hkeys := map_eq_iff_forall₂ (fun _ _ => foreignKeyLine_eq_iff) ht.foreignKeys hu.foreignKeys
  have hindices := map_eq_iff_forall₂ (fun _ _ => indexLine_eq_iff "index") ht.indices hu.indices
  have huniques := map_eq_iff_forall₂ (fun _ _ => indexLine_eq_iff "unique") ht.uniques hu.uniques
  have hbehaviors := map_eq_iff_forall₂ (fun _ _ => behaviorLine_eq_iff "    ") ht.behaviors hu.behaviors
  constructor
  · rintro ⟨⟨name, sqlName, referenceOnly, skipSql, idMethod, containsForeignKey⟩, h⟩
    have kreferrers (t : Table) := areKinds_referrerLines t.referrers
    have kbehaviors (t : Table) := (areKinds_behaviorLines "    " t.behaviors).append (kreferrers t)
    have kuniques (t : Table) := (areKinds_indexLines "unique" t.uniques).append (kbehaviors t)
    have kindices (t : Table) := (areKinds_indexLines "index" t.indices).append (kuniques t)
    have kkeys (t : Table) := (areKinds_foreignKeyLines t.foreignKeys).append (kindices t)
    obtain ⟨columns, h⟩ := lines_cut (areKinds_columnLines _) (areKinds_columnLines _) (kkeys t) (kkeys u) h rfl
    obtain ⟨foreignKeys, h⟩ :=
      lines_cut (areKinds_foreignKeyLines _) (areKinds_foreignKeyLines _) (kindices t) (kindices u) h rfl
    obtain ⟨indices, h⟩ :=
      lines_cut (areKinds_indexLines "index" _) (areKinds_indexLines "index" _) (kuniques t) (kuniques u) h rfl
    obtain ⟨uniques, h⟩ :=
      lines_cut (areKinds_indexLines "unique" _) (areKinds_indexLines "unique" _) (kbehaviors t) (kbehaviors u) h rfl
    obtain ⟨behaviors, h⟩ :=
      lines_cut (areKinds_behaviorLines "    " _) (areKinds_behaviorLines "    " _) (kreferrers t) (kreferrers u) h rfl
    exact ⟨name, sqlName, referenceOnly, skipSql, idMethod, containsForeignKey, hcolumns.mp columns,
      hkeys.mp foreignKeys, hindices.mp indices, huniques.mp uniques, hbehaviors.mp behaviors,
      (referrerLines_eq_iff ht.referrers hu.referrers).mp h⟩
  · intro h
    refine ⟨⟨h.name, h.sqlName, h.referenceOnly, h.skipSql, h.idMethod, h.containsForeignKey⟩, ?_⟩
    rw [innerLines, innerLines, hcolumns.mpr h.columns, hkeys.mpr h.foreignKeys, hindices.mpr h.indices,
      huniques.mpr h.uniques, hbehaviors.mpr h.behaviors, h.referrers]

/-- A table begins with a line that stands nowhere else in it. -/
theorem flatMap_tableLines_eq_iff {ts us : List Table} (ht : ∀ t ∈ ts, t.IsLegible) (hu : ∀ u ∈ us, u.IsLegible) :
    ts.flatMap tableLines = us.flatMap tableLines ↔ List.Forall₂ (Table.LooksLike Column.LooksLike) ts us := by
  have hblock (t : Table) : ∃ head tail, tableLines t = head :: tail ∧ begins "  table " head = true ∧
      ∀ line ∈ tail, begins "  table " line = false :=
    ⟨tableLine t, innerLines t, tableLines_eq t, tableLine_eq t ▸ begins_append,
      (areKinds_innerLines t).begins_eq_false (by decide)⟩
  rw [flatMap_eq_iff_map hblock, map_eq_iff_forall₂ (fun _ _ => tableLines_eq_iff) ht hu]

/-! ### Databases -/

/-- The lines below the one of the database. -/
def lowerLines (d : Database) : List String :=
  d.nameSpace.toList.map ("  namespace " ++ ·) ++ (d.behaviors.map (behaviorLine "  ") ++ d.tables.flatMap tableLines)

theorem databaseLines_eq (d : Database) : databaseLines d = databaseLine d :: lowerLines d := by
  unfold databaseLines lowerLines
  simp only [List.cons_append, List.append_assoc]

theorem areKinds_nameSpaceLine :
    ∀ names : List String, AreKinds ["  namespace "] (names.map ("  namespace " ++ ·)) :=
  areKinds_map fun _ => begins_append

theorem areKinds_tables (ts : List Table) : AreKinds ("  table " :: innerKinds) (ts.flatMap tableLines) := by
  intro line hline
  obtain ⟨t, -, hmem⟩ := List.mem_flatMap.mp hline
  rw [tableLines_eq] at hmem
  rcases List.mem_cons.mp hmem with rfl | hmem
  · exact ⟨_, List.mem_cons_self, tableLine_eq t ▸ begins_append⟩
  · obtain ⟨k, hk, hbegins⟩ := areKinds_innerLines t line hmem
    exact ⟨k, List.mem_cons_of_mem _ hk, hbegins⟩

theorem areKinds_lowerLines (d : Database) :
    AreKinds ("  namespace " :: "  behavior " :: "  table " :: innerKinds) (lowerLines d) :=
  (areKinds_nameSpaceLine _).append ((areKinds_behaviorLines "  " _).append (areKinds_tables _))

theorem databaseLines_eq_iff {d e : Database} (hd : d.IsLegible) (he : e.IsLegible) :
    databaseLines d = databaseLines e ↔ d.LooksLike Column.LooksLike e := by
  rw [databaseLines_eq, databaseLines_eq, List.cons.injEq, databaseLine_eq_iff hd he]
  have hnames : d.nameSpace.toList.map ("  namespace " ++ ·) = e.nameSpace.toList.map ("  namespace " ++ ·) ↔
      d.nameSpace = e.nameSpace := by
    cases d.nameSpace <;> cases e.nameSpace <;> simp
  have hbehaviors := map_eq_iff_forall₂ (fun _ _ => behaviorLine_eq_iff "  ") hd.behaviors he.behaviors
  have htables := flatMap_tableLines_eq_iff hd.tables he.tables
  constructor
  · rintro ⟨⟨name, idMethod, heavyIndexing, identifierQuoting, stringFormat⟩, h⟩
    have ktables (d : Database) := areKinds_tables d.tables
    have kbehaviors (d : Database) := (areKinds_behaviorLines "  " d.behaviors).append (ktables d)
    obtain ⟨nameSpace, h⟩ :=
      lines_cut (areKinds_nameSpaceLine _) (areKinds_nameSpaceLine _) (kbehaviors d) (kbehaviors e) h rfl
    obtain ⟨behaviors, h⟩ :=
      lines_cut (areKinds_behaviorLines "  " _) (areKinds_behaviorLines "  " _) (ktables d) (ktables e) h rfl
    exact ⟨name, idMethod, heavyIndexing, identifierQuoting, stringFormat, hnames.mp nameSpace, hbehaviors.mp behaviors,
      htables.mp h⟩
  · intro h
    refine ⟨⟨h.name, h.idMethod, h.heavyIndexing, h.identifierQuoting, h.stringFormat⟩, ?_⟩
    rw [lowerLines, lowerLines, hnames.mpr h.nameSpace, hbehaviors.mpr h.behaviors, htables.mpr h.tables]

/-! ### Ends of lines -/

theorem lacks_referrerLines {ks : List KeyId} (hk : ∀ k ∈ ks, k.IsLegible) :
    ∀ line ∈ referrerLines ks, lacks '\n' line = true := by
  unfold referrerLines
  split
  · exact nofun
  · refine List.forall_mem_singleton.mpr ?_
    rw [lacks_append, lacks_keyIds hk rfl rfl rfl]
    rfl

theorem lacks_tableLines {t : Table} (ht : t.IsLegible) : ∀ line ∈ tableLines t, lacks '\n' line = true := by
  rw [tableLines_eq, innerLines]
  simp only [List.forall_mem_cons, List.forall_mem_append, List.forall_mem_map]
  exact ⟨lacks_tableLine ht, fun c hc => lacks_columnLine (ht.columns c hc),
    fun k hk => lacks_foreignKeyLine (ht.foreignKeys k hk), fun i hi => lacks_indexLine rfl (ht.indices i hi),
    fun i hi => lacks_indexLine rfl (ht.uniques i hi), fun b hb => lacks_behaviorLine rfl (ht.behaviors b hb),
    lacks_referrerLines ht.referrers⟩

theorem lacks_databaseLines {d : Database} (hd : d.IsLegible) : ∀ line ∈ databaseLines d, lacks '\n' line = true := by
  have hnames : ∀ name ∈ d.nameSpace.toList, lacks '\n' ("  namespace " ++ name) = true := by
    intro name hname
    rw [lacks_append, hd.nameSpace name (Option.mem_toList.mp hname)]
    rfl
  have htables : ∀ line ∈ d.tables.flatMap tableLines, lacks '\n' line = true := by
    intro line hline
    obtain ⟨t, ht, hmem⟩ := List.mem_flatMap.mp hline
    exact lacks_tableLines (hd.tables t ht) line hmem
  rw [databaseLines_eq, lowerLines]
  simp only [List.forall_mem_cons, List.forall_mem_append, List.forall_mem_map]
  exact ⟨lacks_databaseLine hd, hnames, fun b hb => lacks_behaviorLine rfl (hd.behaviors b hb), htables⟩

theorem linesText_cons (line : String) (lines : List String) :
    linesText (line :: lines) = line ++ ("\n" ++ linesText lines) := by
  rw [linesText, List.map_cons, String.join_cons, String.append_assoc, linesText]

theorem linesText_append (xs ys : List String) : linesText (xs ++ ys) = linesText xs ++ linesText ys := by
  rw [linesText, List.map_append, String.join_append, linesText, linesText]

theorem linesText_cons_ne (line : String) (lines : List String) : linesText (line :: lines) ≠ "" := by
  intro h
  rw [linesText_cons, String.append_eq_empty_iff, String.append_eq_empty_iff] at h
  exact absurd h.2.1 (by decide)

/-- The ends of lines are marks before the lines but for the first one and the last one. -/
theorem linesText_eq_marked (lines : List String) : "\n" ++ linesText lines = marked "\n" lines ++ "\n" := by
  induction lines with
  | nil => rfl
  | cons line lines ih => rw [linesText_cons, ih, marked_cons, String.append_assoc, String.append_assoc]

/-- Lines are taken apart again at their ends. -/
theorem linesText_inj (hx : ∀ line ∈ xs, lacks '\n' line = true) (hy : ∀ line ∈ ys, lacks '\n' line = true) :
    linesText xs = linesText ys ↔ xs = ys := by
  rw [← String.append_right_inj "\n", linesText_eq_marked, linesText_eq_marked, String.append_left_inj,
    marked_inj rfl hx hy]

/-! ### Blocks -/

/-- A database with the empty line before it. -/
def block (d : Database) : List String :=
  "" :: databaseLines d

/-- Only the line before a database is empty. -/
theorem flatMap_block_eq_iff {ds es : List Database} :
    ds.flatMap block = es.flatMap block ↔ ds.map databaseLines = es.map databaseLines := by
  have hfilled (d : Database) : ∀ line ∈ databaseLines d, (line == "") = false := by
    intro line hline
    rw [beq_eq_false_iff_ne]
    rw [databaseLines_eq] at hline
    rcases List.mem_cons.mp hline with rfl | hline
    · exact ne_of_begins (databaseLine_eq d ▸ begins_append) (by decide)
    · obtain ⟨k, hk, hbegins⟩ := areKinds_lowerLines d line hline
      refine ne_of_begins hbegins ?_
      rintro rfl
      revert hk
      decide
  have hblock (ds : List Database) : ds.map block = (ds.map databaseLines).map ("" :: ·) := by
    rw [List.map_map]
    rfl
  rw [flatMap_eq_iff_map (f := block) (p := fun line => line == "")
    fun d => ⟨"", databaseLines d, rfl, rfl, hfilled d⟩, hblock, hblock,
    List.map_inj_right fun _ _ h => (List.cons.inj h).2]

theorem lacks_blocks {ds : List Database} (hd : ∀ d ∈ ds, d.IsLegible) :
    ∀ line ∈ ds.flatMap block, lacks '\n' line = true := by
  intro line hline
  obtain ⟨d, hmem, hline⟩ := List.mem_flatMap.mp hline
  rcases List.mem_cons.mp hline with rfl | hline
  · rfl
  · exact lacks_databaseLines (hd d hmem) line hline

end Dump

namespace Schema

open Dump

variable {s t : Schema}

theorem dump_eq_empty_iff : s.dump = "" ↔ s.databases = [] := by
  unfold dump
  match s.databases with
  | [] => simp
  | [d] =>
    rw [List.map_singleton, String.intercalate_singleton, databaseLines_eq]
    simp [linesText_cons_ne]
  | d :: e :: ds =>
    rw [List.map_cons, List.map_cons, String.intercalate_cons_cons, databaseLines_eq]
    simp [linesText_cons_ne, String.append_eq_empty_iff]

/-- The blocks of a schema are its dump with an empty line before the first database. -/
theorem linesText_blocks (h : s.databases ≠ []) : linesText (s.databases.flatMap block) = "\n" ++ s.dump := by
  have hblock (d : Database) : linesText (block d) = "\n" ++ linesText (databaseLines d) := by
    rw [block, linesText_cons, String.empty_append]
  unfold dump
  cases hdatabases : s.databases with
  | nil => exact absurd hdatabases h
  | cons d ds =>
    clear hdatabases h
    induction ds generalizing d with
    | nil =>
      rw [List.flatMap_cons, List.flatMap_nil, List.append_nil, hblock, List.map_singleton,
        String.intercalate_singleton]
    | cons e ds ih =>
      rw [List.flatMap_cons, linesText_append, hblock, ih]
      simp only [List.map_cons, String.intercalate_cons_cons, String.append_assoc]

theorem dump_eq_iff_blocks :
    s.dump = t.dump ↔ linesText (s.databases.flatMap block) = linesText (t.databases.flatMap block) := by
  have hnone {s : Schema} : linesText (s.databases.flatMap block) = "" ↔ s.dump = "" := by
    rw [dump_eq_empty_iff]
    by_cases hs : s.databases = []
    · simp [hs, linesText]
    · simp [hs, linesText_blocks hs, String.append_eq_empty_iff]
  by_cases hs : s.databases = []
  · rw [hs, dump_eq_empty_iff.mpr hs]
    exact eq_comm.trans (hnone.symm.trans eq_comm)
  · by_cases ht : t.databases = []
    · rw [ht, dump_eq_empty_iff.mpr ht]
      exact hnone.symm
    · rw [linesText_blocks hs, linesText_blocks ht, String.append_right_inj]

theorem dump_eq_iff_looksLike (hs : s.IsLegible) (ht : t.IsLegible) :
    s.dump = t.dump ↔ s.LooksLike Column.LooksLike t := by
  rw [dump_eq_iff_blocks, linesText_inj (lacks_blocks hs) (lacks_blocks ht), flatMap_block_eq_iff,
    map_eq_iff_forall₂ (fun _ _ => databaseLines_eq_iff) hs ht, LooksLike]

/-- A dump shows of a legible schema what makes it look like another one, and of an explicit one all that it is there
    to show. -/
theorem dump_tells_apart (hs : s.IsLegible) (ht : t.IsLegible) :
    (s.dump = t.dump ↔ s.LooksLike Column.LooksLike t) ∧
      (s.IsExplicit → t.IsExplicit → (s.dump = t.dump ↔ s.LooksLike Column.AgreesWith t)) := by
  have hlike := dump_eq_iff_looksLike hs ht
  exact ⟨hlike, fun hes het => hlike.trans (looksLike_iff_agreesWith hes het)⟩

/-! ### A kiosk -/

def customerTable : Table where
  name := "customer"
  ownSqlName := some "customers"
  settings := { idMethod := some .none }
  columns := [{
    name := "id"
    domain := { type := .integer }
    primaryKey := true
    notNull := true
    referrers := [⟨"order", "buyer"⟩] }]
  referrers := [⟨"order", "buyer"⟩]

def buyerColumn : Column where
  name := "customer_id"
  domain := { type := .integer }
  notNull := true

def priceColumn (size scale : Option Nat) : Column where
  name := "price"
  domain := { type := .decimal, size, scale }

def stateColumn (default : Default) : Column where
  name := "state"
  domain := { default }

def orderTable (price state : Column) : Table where
  name := "order"
  settings := { idMethod := some .none }
  columns := [buyerColumn, price, state]
  foreignKeys := [{
    name := "buyer"
    target := "customer"
    onDelete := .cascade
    references := [⟨"customer_id", "id"⟩]
    table := "order" }]
  indices := [{ ownName := some "order_i_state", columns := [⟨"state", some 4⟩] }]

/-- A kiosk with customers and their orders. -/
def kiosk (price state : Column) : Schema where
  databases := [{ name := "kiosk", tables := [customerTable, orderTable price state] }]

section Kiosk
variable {price price' state state' : Column}

theorem isExplicit_kiosk (hprice : price.IsExplicit) (hstate : state.IsExplicit) : (kiosk price state).IsExplicit := by
  have hcustomer : customerTable.IsExplicit :=
    List.forall_mem_singleton.mpr ⟨fun _ => rfl, fun _ => (Option.some_ne_none _).symm⟩
  have horder : (orderTable price state).IsExplicit :=
    List.forall_mem_cons.mpr ⟨⟨fun _ => rfl, fun _ => (Option.some_ne_none _).symm⟩,
      List.forall_mem_cons.mpr ⟨hprice, List.forall_mem_singleton.mpr hstate⟩⟩
  exact List.forall_mem_singleton.mpr (List.forall_mem_cons.mpr ⟨hcustomer, List.forall_mem_singleton.mpr horder⟩)

theorem looksLike_kiosk_iff {R : Column → Column → Prop} (hR : ∀ c, R c c) :
    (kiosk price state).LooksLike R (kiosk price' state') ↔ R price price' ∧ R state state' := by
  constructor
  · intro h
    have hkiosk := (List.forall₂_cons.mp h).1
    have horder := (List.forall₂_cons.mp (List.forall₂_cons.mp hkiosk.tables).2).1
    obtain ⟨-, hprice, hstate, -⟩ := by simpa only [orderTable, List.forall₂_cons] using horder.columns
    exact ⟨hprice, hstate⟩
  · rintro ⟨hprice, hstate⟩
    have horder : (orderTable price state).LooksLike R (orderTable price' state') :=
      { Table.LooksLike.refl hR (orderTable price state) with
        columns := .cons (hR _) (.cons hprice (.cons hstate .nil)) }
    exact .cons ⟨rfl, rfl, rfl, rfl, rfl, rfl, .nil, .cons (.refl hR _) (.cons horder .nil)⟩ .nil

end Kiosk

theorem isExplicit_priceColumn (size : Nat) (scale : Option Nat) : (priceColumn (some size) scale).IsExplicit :=
  ⟨fun h => absurd h (Option.some_ne_none _), fun _ => (Option.some_ne_none _).symm⟩

theorem dump_tells_apart_kiosk :
    (kiosk (priceColumn (some 10) (some 2)) (stateColumn (.value "open"))).IsLegible ∧
      (kiosk (priceColumn (some 10) (some 2)) (stateColumn (.expression "open"))).IsLegible ∧
      (kiosk (priceColumn (some 10) (some 2)) (stateColumn (.value "open"))).IsExplicit ∧
      (kiosk (priceColumn (some 10) (some 2)) (stateColumn (.expression "open"))).IsExplicit ∧
      (kiosk (priceColumn (some 10) (some 2)) (stateColumn (.value "open"))).dump ≠
        (kiosk (priceColumn (some 10) (some 2)) (stateColumn (.expression "open"))).dump := by
  have hvalue : (kiosk (priceColumn (some 10) (some 2)) (stateColumn (.value "open"))).IsLegible := by decide
  have hexpression : (kiosk (priceColumn (some 10) (some 2)) (stateColumn (.expression "open"))).IsLegible := by decide
  have hunquoted (text : String) : some (Default.expression "open") ≠ some (.expression ("'" ++ text ++ "'")) := by
    intro h
    have hbegins : Text.begins "'" "open" = true := by
      rw [Default.expression.inj (Option.some.inj h), String.append_assoc]
      exact Text.begins_append
    exact absurd hbegins (by decide)
  have hprice := isExplicit_priceColumn 10 (some 2)
  have hstate : (stateColumn (.value "open")).IsExplicit := ⟨fun _ => rfl, nofun⟩
  have hstate' : (stateColumn (.expression "open")).IsExplicit := ⟨fun _ => rfl, hunquoted⟩
  have hvalue' := isExplicit_kiosk hprice hstate
  have hexpression' := isExplicit_kiosk hprice hstate'
  refine ⟨hvalue, hexpression, hvalue', hexpression', fun h => ?_⟩
  have hagrees := ((dump_tells_apart hvalue hexpression).2 hvalue' hexpression').mp h
  cases ((looksLike_kiosk_iff .refl).mp hagrees).2.default

/-- An expression in single quotes is shown like the literal between them, and a scale without a size is not shown. -/
theorem dump_hides_quotes_and_scale :
    (kiosk (priceColumn none none) (stateColumn (.value "open"))).IsLegible ∧
      (kiosk (priceColumn none none) (stateColumn (.expression "'open'"))).IsLegible ∧
      (kiosk (priceColumn none (some 2)) (stateColumn (.value "open"))).IsLegible ∧
      (kiosk (priceColumn none none) (stateColumn (.value "open"))).dump =
        (kiosk (priceColumn none none) (stateColumn (.expression "'open'"))).dump ∧
      ¬(kiosk (priceColumn none none) (stateColumn (.value "open"))).LooksLike Column.AgreesWith
        (kiosk (priceColumn none none) (stateColumn (.expression "'open'"))) ∧
      (kiosk (priceColumn none none) (stateColumn (.value "open"))).dump =
        (kiosk (priceColumn none (some 2)) (stateColumn (.value "open"))).dump ∧
      ¬(kiosk (priceColumn none none) (stateColumn (.value "open"))).LooksLike Column.AgreesWith
        (kiosk (priceColumn none (some 2)) (stateColumn (.value "open"))) := by
  have hvalue : (kiosk (priceColumn none none) (stateColumn (.value "open"))).IsLegible := by decide
  have hquoted : (kiosk (priceColumn none none) (stateColumn (.expression "'open'"))).IsLegible := by decide
  have hscaled : (kiosk (priceColumn none (some 2)) (stateColumn (.value "open"))).IsLegible := by decide
  have hlike (c : Column) : c.LooksLike c := (Column.AgreesWith.refl c).looksLike
  have hstate : (stateColumn (.value "open")).LooksLike (stateColumn (.expression "'open'")) :=
    ⟨⟨rfl, rfl, rfl, rfl, rfl, rfl, rfl⟩, fun _ => rfl, .quoted "open"⟩
  have hprice : (priceColumn none none).LooksLike (priceColumn none (some 2)) :=
    ⟨⟨rfl, rfl, rfl, rfl, rfl, rfl, rfl⟩, fun h => absurd rfl h, .same none⟩
  refine ⟨hvalue, hquoted, hscaled, ?_, fun h => ?_, ?_, fun h => ?_⟩
  · exact (dump_eq_iff_looksLike hvalue hquoted).mpr ((looksLike_kiosk_iff hlike).mpr ⟨hlike _, hstate⟩)
  · cases ((looksLike_kiosk_iff .refl).mp h).2.default
  · exact (dump_eq_iff_looksLike hvalue hscaled).mpr ((looksLike_kiosk_iff hlike).mpr ⟨hprice, hlike _⟩)
  · cases ((looksLike_kiosk_iff .refl).mp h).1.scale

end Schema

end Schemata
