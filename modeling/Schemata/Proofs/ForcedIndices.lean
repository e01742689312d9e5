import Schemata.Proofs.Declared
import Schemata.Proofs.HeavyIndices
import Schemata.Proofs.Idempotence
import Schemata.Proofs.Reached

/-!
# Heavy indexing that is forced

A configuration that forces heavy indexing sets the flag of every database. A table takes it over where it
has no flag of its own. A table that says no goes on saying so, whether that was declared or left there by an
earlier finalization, which gives every table the flag of its database (`forced_heavy_indexing`). Every other
table ends with an index over each proper suffix of its primary key.
-/

namespace Schemata

/-! ### Tables -/

namespace Table
variable {t u : Table}

/-- There is an index over every proper suffix of the primary key. -/
def HeavilyIndexed (t : Table) : Prop :=
  ∀ names ∈ t.keySuffixes, t.hasIndexOver names = true

/-- The table itself says that it is not to be indexed heavily. -/
def OptsOut (t : Table) : Prop :=
  t.settings.heavyIndexing = some false

/-- Where the flag of the database is set, just those tables opt out that did so before. -/
theorem optsOut_iff (h : u.settings.heavyIndexing = some (t.settings.heavyIndexing.getD true)) :
    u.OptsOut ↔ t.OptsOut := by
  unfold OptsOut
  rw [h]
  cases t.settings.heavyIndexing <;> simp

theorem Grows.heavilyIndexed (h : t.Grows u) (ht : t.HeavilyIndexed) : u.HeavilyIndexed := by
  intro names hnames
  rw [keySuffixes, h.primaryKeyNames] at hnames
  exact h.hasIndexOver (ht names hnames)

theorem heavilyIndexed_of_addHeavyIndices {w : Unit} (h : addHeavyIndices.Gives t w u) (ht : t.isHeavyIndexing = true) :
    u.HeavilyIndexed := by
  obtain ⟨hext, hall⟩ := gives_addHeavyIndices h
  intro names hnames
  rw [keySuffixes_eq, (Grows.of_extends hext).primaryKeyNames] at hnames
  exact hall ht names hnames

/-- The flag stays when a table grows. -/
theorem Grows.flag (h : t.Grows u) : u.settings.heavyIndexing = t.settings.heavyIndexing := by
  have hbare : u.bare.settings.heavyIndexing = t.bare.settings.heavyIndexing := by
    rcases Extends.settings h with hs | ⟨-, -, hs⟩ <;> rw [hs]
  exact hbare

end Table

/-- An archive has the flag of its source. -/
theorem Archivable.flag_archive {source t : Table} {name : String} {b : Behavior} (h : archive source name b = .ok t) :
    t.settings.heavyIndexing = source.settings.heavyIndexing := by
  simp only [archive, bind, Except.bind] at h
  split at h
  · cases h
  rename_i v hv
  have hext := addArchivedColumn_eq h
  obtain ⟨cs, hcs, -⟩ := withoutAutoIncrement_eq v
  rw [hcs, addPlainIndices_indices hv] at hext
  exact (Table.Grows.of_extends hext).flag

namespace Database
variable {d e f m : Database} {r : Registry} {p : Platform} {limit : Nat} {ran : List HookRun} {w : Unit}

/-! ### Runs of behaviors -/

/-- The flag of the database stays set and those of the tables stay as they are, and there are tables that opt out
    only where there were some before. -/
structure KeepsFlags (d e : Database) : Prop where
  own : d.settings.heavyIndexing = true → e.settings.heavyIndexing = true
  tables : ∀ (i : Nat) t, d.tables[i]? = some t →
    ∃ u, e.tables[i]? = some u ∧ u.name = t.name ∧ u.settings.heavyIndexing = t.settings.heavyIndexing
  fresh : ∀ u ∈ e.tables, u.OptsOut → ∃ t ∈ d.tables, t.OptsOut

namespace KeepsFlags

theorem refl (d : Database) : d.KeepsFlags d :=
  ⟨id, fun _ t ht => ⟨t, ht, rfl, rfl⟩, fun t ht hout => ⟨t, ht, hout⟩⟩

theorem trans (h : d.KeepsFlags e) (h' : e.KeepsFlags f) : d.KeepsFlags f where
  own := h'.own ∘ h.own
  tables i t ht := by
    obtain ⟨u, hu, hname, hflag⟩ := h.tables i t ht
    obtain ⟨v, hv, hname', hflag'⟩ := h'.tables i u hu
    exact ⟨v, hv, hname'.trans hname, hflag'.trans hflag⟩
  fresh v hv hout := by
    obtain ⟨u, hu, hout⟩ := h'.fresh v hv hout
    exact h.fresh u hu hout

/-- Tables that have their names and flags in their places. -/
theorem of_forall₂ (hown : d.settings.heavyIndexing = true → e.settings.heavyIndexing = true)
    (h : List.Forall₂ (fun t u : Table => u.name = t.name ∧ u.settings.heavyIndexing = t.settings.heavyIndexing)
      d.tables e.tables) : d.KeepsFlags e where
  own := hown
  tables _ _ ht := getElem?_of_forall₂ h ht
  fresh u hu hout := by
    obtain ⟨i, hi⟩ := List.getElem?_of_mem hu
    obtain ⟨t, ht, -, hflag⟩ := forall₂_getElem? h hi
    exact ⟨t, List.mem_of_getElem? ht, hflag.symm.trans hout⟩

theorem of_grows (h : d.Grows e) : d.KeepsFlags e :=
  of_forall₂ (fun hd => (congrArg (·.settings.heavyIndexing) h.rest).trans hd)
    (h.tables.imp fun _ _ ht => ⟨ht.name, ht.flag⟩)

theorem of_withoutBehaviors (h : e.withoutBehaviors = d.withoutBehaviors) : d.KeepsFlags e := by
  refine of_forall₂ (fun hd => (congrArg (·.settings.heavyIndexing) h).trans hd) ?_
  have htables : List.Forall₂ Eq d.withoutBehaviors.tables e.withoutBehaviors.tables :=
    List.forall₂_eq_eq_eq ▸ (congrArg Database.tables h).symm
  refine (List.forall₂_map_left_iff.mp (List.forall₂_map_right_iff.mp htables)).imp fun t u htu => ?_
  exact ⟨(congrArg Table.name htu).symm, (congrArg (·.settings.heavyIndexing) htu).symm⟩

/-- An archive joins. -/
theorem of_archive {source t : Table} {b : Behavior} (hsource : source ∈ d.tables)
    (ht : Archivable.archive source t.name b = .ok t) : d.KeepsFlags { d with tables := d.tables ++ [t] } where
  own := id
  tables i u hu := ⟨u, by rw [List.getElem?_append_left (List.getElem?_eq_some_iff.mp hu).1, hu], rfl, rfl⟩
  fresh := forall_mem_append_singleton (fun u hu hout => ⟨u, hu, hout⟩) fun hout =>
    ⟨source, hsource, (Archivable.flag_archive ht).symm.trans hout⟩

end KeepsFlags

/-! ### Finalization -/

theorem Alone.heavilyIndexed {t u : Table} (h : d.Alone p t u) (ht : t.isHeavyIndexing = true) : u.HeavilyIndexed := by
  obtain ⟨t₁, t₂, v, hheavy, hdrop, hkeys, hindices⟩ := h
  have hrest : t₁.Extends u := (Table.gives_dropUnusedIdMethod hdrop).1.trans <| hkeys.grows.trans
    (Table.gives_addMissingIndices id (fun _ _ _ => Table.gives_addKeyIndex.mp) hindices).1
  exact (Table.Grows.of_extends hrest).heavilyIndexed (Table.heavilyIndexed_of_addHeavyIndices hheavy ht)

/-- Each table takes over the flag of the database if it has none, and is indexed heavily where the flag is set. -/
theorem flags_finalizeTables (h : (finalizeTables p).Gives (prepareTables m) w e) :
    e.settings = m.settings ∧ List.Forall₂ (fun t u => u.name = t.name ∧
      u.settings.heavyIndexing = some (t.settings.heavyIndexing.getD m.settings.heavyIndexing) ∧
        (u.isHeavyIndexing = true → u.HeavilyIndexed)) m.tables e.tables := by
  have hreached := reached_finalizeTables h
  have hsettings := congrArg Database.settings hreached.grows.rest
  refine ⟨hsettings, (List.forall₂_map_left_iff.mp hreached.tables).imp fun t u htu => ?_⟩
  obtain ⟨v, hv, hbare⟩ := htu
  have hgrows : (t.prepare m).Grows u := (Table.Grows.of_extends hv.grows).trans (.of_bare hbare)
  refine ⟨hgrows.name, hgrows.flag, fun hu => ?_⟩
  rw [hgrows.isHeavyIndexing] at hu
  exact (Table.Grows.of_bare hbare).heavilyIndexed (hv.heavilyIndexed hu)

/-- What finalization with heavy indexing makes of a database: every table has a flag, and those whose flag is set
    are indexed. The flag is set unless a table opts out before, or comes from hooks and another table does. -/
structure IndexedByForce (d e : Database) : Prop where
  own : e.settings.heavyIndexing = true
  indexed : ∀ u ∈ e.tables, u.OptsOut ∨ u.settings.heavyIndexing = some true ∧ u.HeavilyIndexed
  kept : ∀ (i : Nat) t, d.tables[i]? = some t → ∃ u, e.tables[i]? = some u ∧ u.name = t.name ∧ (u.OptsOut ↔ t.OptsOut)
  fresh : ∀ u ∈ e.tables, u.OptsOut → ∃ t ∈ d.tables, t.OptsOut

theorem indexedByForce_of_finalize (hr : r.Settles KeepsFlags) (hd : d.settings.heavyIndexing = true)
    (h : (finalize limit r p).Gives d ran e) : d.IndexedByForce e := by
  obtain ⟨m, hm, he⟩ := gives_finalize.mp h
  have hflags := hr.settle hm
  obtain ⟨hsettings, htables⟩ := flags_finalizeTables he
  have hown : m.settings.heavyIndexing = true := hflags.own hd
  rw [hown] at htables
  refine ⟨hsettings ▸ hown, fun u hu => ?_, fun i t ht => ?_, fun u hu hout => ?_⟩
  · -- The flag of a table was set before its indices were added, so it says whether they were.
    obtain ⟨i, hi⟩ := List.getElem?_of_mem hu
    obtain ⟨x, hx, -, hflag, hindexed⟩ := forall₂_getElem? htables hi
    cases hset : x.settings.heavyIndexing.getD true with
    | false => exact .inl (hflag.trans (congrArg some hset))
    | true =>
      rw [hset] at hflag
      exact .inr ⟨hflag, hindexed (by rw [Table.isHeavyIndexing, hflag]; rfl)⟩
  · obtain ⟨x, hx, hname, hsame⟩ := hflags.tables i t ht
    obtain ⟨u, hu, hname', hflag, -⟩ := getElem?_of_forall₂ htables hx
    exact ⟨u, hu, hname'.trans hname, (Table.optsOut_iff hflag).trans (by rw [Table.OptsOut, hsame, Table.OptsOut])⟩
  · obtain ⟨i, hi⟩ := List.getElem?_of_mem hu
    obtain ⟨x, hx, -, hflag, -⟩ := forall₂_getElem? htables hi
    exact hflags.fresh x (List.mem_of_getElem? hx) ((Table.optsOut_iff hflag).mp hout)

end Database

namespace Registry
variable {r : Registry}

theorem HooksObey.settles_keepsFlags (hr : r.HooksObey Database.KeepsFlags) : r.Settles Database.KeepsFlags where
  toHooksObey := hr
  refl := .refl
  trans := .trans
  spread := fun h => .of_withoutBehaviors (Database.spread_withoutBehaviors h)
  mark := fun k d => .of_withoutBehaviors (Database.mark_withoutBehaviors k d)

theorem builtin_keepsFlags : builtin.HooksObey Database.KeepsFlags :=
  builtin_hooksObey .refl .of_grows fun hsource _ ht => .of_archive hsource ht

end Registry

namespace Schema
variable {s t : Schema} {r : Registry} {c : Config} {limit : Nat}

/-- A forced flag reaches every table that has none. Where no table opts out, every table is indexed heavily, and
    where some do, it is those that are not. -/
theorem forced_heavy_indexing (hr : r.HooksObey Database.KeepsFlags) (hc : c.heavyIndexing = true)
    (h : (finalizeWithin limit r c).Gives s () t) :
    List.Forall₂ Database.IndexedByForce s.databases t.databases := by
  obtain ⟨es, hes, rfl⟩ := gives_finalize.mp (gives_finalizeWithin.mp h)
  rw [forced, if_pos hc, forceHeavyIndexing, List.forall₂_map_left_iff] at hes
  refine hes.imp fun d e hde => ?_
  obtain ⟨ran, hran⟩ := hde
  obtain ⟨hown, hindexed, hkept, hfresh⟩ := Database.indexedByForce_of_finalize hr.settles_keepsFlags rfl hran
  exact ⟨hown, hindexed, hkept, hfresh⟩

/-- The pages of a ledger, and receipts that are not to be indexed heavily but archived. -/
def bookkeeping : Schema where
  databases :=
    [{ name := "ledger"
       tables :=
         [{ name := "page"
            columns := [{ name := "year", primaryKey := true }, { name := "number", primaryKey := true }] },
          { name := "receipt"
            settings := { heavyIndexing := some false }
            columns := [{ name := "page", primaryKey := true }, { name := "line", primaryKey := true }]
            behaviors := [{ name := "archivable", id := "archivable", table := some "receipt" }] }] }]

theorem forced_heavy_indexing_bookkeeping :
    Registry.builtin.HooksObey Database.KeepsFlags ∧ heavy.heavyIndexing = true ∧
      ∃ t, (finalizeWithin settleLimit .builtin heavy).Gives bookkeeping () t ∧
        (t.databases.flatMap fun d => d.tables.map fun u =>
            (u.name, u.settings.heavyIndexing, u.indices.map (·.columnNames))) =
          [("page", some true, [["number"]]), ("receipt", some false, []), ("receipt_archive", some false, [])] ∧
        List.Forall₂ Database.IndexedByForce bookkeeping.databases t.databases := by
  have h : (finalizeWithin settleLimit .builtin heavy).Gives bookkeeping ()
      (finalizeWithin settleLimit .builtin heavy bookkeeping).state := ⟨by decide +kernel, rfl⟩
  exact ⟨Registry.builtin_keepsFlags, rfl, _, h, by decide +kernel,
    forced_heavy_indexing Registry.builtin_keepsFlags rfl h⟩

/-- The pages alone, with nothing said about their indices. -/
def pagesTree : Json :=
  .obj [("name", .str "ledger"), ("tables", .arr
    [.obj [("name", .str "page"),
      ("columns", .arr (["year", "number"].map fun name =>
        .obj [("name", .str name), ("type", .str "INTEGER"), ("primaryKey", .bool true)]))]])]

def pages : Schema :=
  (build .builtin .empty none pagesTree ()).result.toOption.getD {}

theorem build_pages : (build .builtin .empty none pagesTree ()).result = .ok pages :=
  eq_ok_getD (by decide +kernel)

/-- The suffixes of primary keys over which there is no index, table by table. -/
def missing (s : Schema) : List (List (List String)) :=
  s.databases.flatMap fun d => d.tables.map (·.missingSuffixes)

/-- Where heavy indexing is forced at once, the table gets its index; where it is forced after another finalization,
    it does not. -/
theorem forced_too_late :
    (build .builtin .empty none pagesTree ()).result = .ok pages ∧
      (∃ t, (finalizeWith .builtin heavy).Gives pages () t ∧ t.missing = [[]]) ∧
      ∃ t u, (finalizeWith .builtin {}).Gives pages () t ∧ (finalizeWith .builtin heavy).Gives t () u ∧
        u.databases.map (·.settings.heavyIndexing) = [true] ∧ u.missing = [[["number"]]] :=
  ⟨build_pages, ⟨_, ⟨by decide +kernel, rfl⟩, by decide +kernel⟩, _, _, ⟨by decide +kernel, rfl⟩,
    ⟨by decide +kernel, rfl⟩, by decide +kernel, by decide +kernel⟩

end Schema

end Schemata
