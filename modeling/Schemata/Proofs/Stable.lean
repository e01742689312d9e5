import Schemata.Proofs.Finalized

/-!
# Finalized databases are stable

A run over the tables of a finalized database ends where it began. The run starts from the tables
without their back edges. No step of it finds anything to add, so that the result and the database agree
but for back edges, and these are a function of the rest.
-/

namespace Schemata

theorem Platform.extraIndices_eq_nil {p : Platform} {d : Database} {t : Table}
    (h : p.needsKeyIndex d t = true → ∀ k ∈ t.foreignKeys, t.coversColumns k.localColumns = true) :
    p.extraIndices d t = [] := by
  unfold extraIndices
  split
  · rename_i hneeds
    refine List.filterMap_eq_nil_iff.mpr fun k hk => ?_
    simp [keyIndex?, h hneeds k hk]
  · rfl

theorem Table.Inherits.prepare {d : Database} {t : Table} (h : t.Inherits d) : t.prepare d = t.bare := by
  rw [Table.prepare, h.settings, h.nameSpace]
  rfl

namespace Database
variable {d e : Database} {p : Platform} {pos : Nat} {t : Table}

/-! ### Without back edges -/

/-- A database without back edges. -/
def bare (d : Database) : Database :=
  { d with tables := d.tables.map (·.bare) }

theorem bare_tables (h : e.bare = d.bare) : e.tables.map (·.bare) = d.tables.map (·.bare) := by
  have := congrArg Database.tables h
  exact this

theorem Grows.of_bare (h : e.bare = d.bare) : d.Grows e where
  rest := by
    have := congrArg (fun d : Database => { d with tables := [] }) h
    exact this
  tables := by
    have heq : List.Forall₂ (· = ·) (e.tables.map (·.bare)) (d.tables.map (·.bare)) := by
      rw [bare_tables h]
      exact List.forall₂_same.mpr fun _ _ => rfl
    rw [List.forall₂_map_left_iff, List.forall₂_map_right_iff] at heq
    exact heq.flip.imp fun _ _ hbare => .of_bare hbare

theorem getElem?_bare (h : e.bare = d.bare) (ht : d.tables[pos]? = some t) :
    ∃ u, e.tables[pos]? = some u ∧ u.bare = t.bare := by
  have hmap := congrArg (·[pos]?) (bare_tables h)
  simp only [List.getElem?_map, ht, Option.map_some] at hmap
  exact Option.map_eq_some_iff.mp hmap

/-- Databases whose tables agree but for back edges at every position. -/
theorem bare_ext (hrest : { e with tables := [] } = { d with tables := [] })
    (h : ∀ i : Nat, e.tables[i]?.map Table.bare = d.tables[i]?.map Table.bare) : e.bare = d.bare := by
  have htables : e.tables.map (·.bare) = d.tables.map (·.bare) := by
    apply List.ext_getElem?
    intro i
    rw [List.getElem?_map, List.getElem?_map]
    exact h i
  have hput := congrArg (fun f : Database => { f with tables := d.tables.map Table.bare }) hrest
  rw [bare, htables]
  exact hput

theorem bare_linkKeys (ht : d.tables[pos]? = some t)
    (h : (Change.forEach (linkKey pos) t.foreignKeys).Gives d () e) (b : Table → Bool) :
    (e.modifyTableAt pos fun t => { t with containsForeignKey := b t }).bare = d.bare := by
  obtain ⟨hg, -, -⟩ := gives_linkKeyList ht h
  refine bare_ext (hg 0).grows.rest fun i => ?_
  have hclear := (hg (i + 1)).others i (Nat.ne_of_lt (Nat.lt_succ_self i))
  have hbare : e.tables[i]?.map Table.bare = d.tables[i]?.map Table.bare := by
    have hput := congrArg (Option.map fun t : Table => { t with containsForeignKey := false }) hclear
    rw [Option.map_map, Option.map_map] at hput
    exact hput
  show (e.tables.modify pos _)[i]?.map Table.bare = _
  rw [List.getElem?_modify, ← hbare, Option.map_eq_map, Option.map_map]
  congr 1
  funext t
  rw [Function.comp_apply]
  split <;> rfl

/-! ### Nothing is added -/

/-- Finalizing a complete table whose keys are resolved succeeds and changes back edges only. -/
theorem exists_finalizeTable (ht : d.tables[pos]? = some t) (hc : t.Complete p d)
    (hres : ∀ k ∈ t.foreignKeys, d.Resolved pos k) :
    ∃ e, (finalizeTable p pos).Gives d () e ∧ e.bare = d.bare := by
  obtain ⟨f, hf⟩ := exists_linkKeyList hres
  obtain ⟨e, he⟩ : ∃ e, e = f.modifyTableAt pos fun t => { t with containsForeignKey := t.refersByKey } := ⟨_, rfl⟩
  have hbare : e.bare = d.bare := he ▸ bare_linkKeys ht hf _
  obtain ⟨u, hu, hut⟩ := getElem?_bare hbare ht
  have hcu : u.Complete p e := (hc.of_bare hut).of_vendor (Grows.of_bare hbare).vendor
  have hlink : (linkKeys pos).Gives d () e := (linkKeys_eq ht).mpr ⟨f, hf, he⟩
  have hidx : (addKeyIndices p pos).Gives e () e := by
    refine (addKeyIndices_eq hu).mpr ⟨u, ?_, ?_⟩
    · rw [Platform.extraIndices_eq_nil hcu.covered]
      exact Change.gives_forEach_nil.mpr rfl
    · rw [← List.getElem?_eq_some_iff.mp hu |>.2, List.set_getElem_self]
  refine ⟨e, ?_, hbare⟩
  simp only [finalizeTable, Change.gives_bind]
  exact ⟨(), d, editAt_self ht (Table.addHeavyIndices_self hc.heavy),
    (), d, editAt_self ht (Table.dropUnusedIdMethod_self hc.counts),
    (), d, completeKeys_self ht hc.explicit, (), e, hlink, (), e, hidx,
    editAt_self hu (Table.gives_warnWithoutKey.mpr rfl)⟩

theorem Finalized.prepareTables (h : d.Finalized p) : prepareTables d = d.bare := by
  unfold Database.prepareTables bare
  rw [List.map_congr_left fun t ht => (h.inherits t ht).prepare]

theorem Finalized.exists_finalizeTables (h : d.Finalized p) :
    ∃ e, (finalizeTables p).Gives (Database.prepareTables d) () e ∧ e.bare = d.bare := by
  -- The invariant of the run: the database at hand is `d` but for back edges.
  have hstart : d.bare.bare = d.bare := by
    simp [bare, Function.comp_def, Table.bare, Table.clearReferrers, Column.clearReferrers]
  rw [h.prepareTables]
  simp only [finalizeTables, Change.gives_bind, Change.gives_get]
  obtain ⟨e, he, hbare⟩ := Change.exists_forEach (f := finalizeTable p) (I := fun s => s.bare = d.bare)
    (l := List.range d.bare.tables.length)
    (fun pos hpos s hs => by
      have hlt : pos < d.tables.length := by simpa [bare] using hpos
      obtain ⟨hcomplete, -, hres⟩ := h.tables pos hlt _ (List.getElem?_eq_getElem hlt)
      obtain ⟨u, hu, hut⟩ := getElem?_bare hs (List.getElem?_eq_getElem hlt)
      have hg := Grows.of_bare hs
      have hkeys := Table.foreignKeys_of_bare hut
      obtain ⟨e, he, hes⟩ := exists_finalizeTable hu ((hcomplete.of_bare hut).of_vendor hg.vendor)
        fun k hk => (hres k (hkeys ▸ hk)).grows hg
      exact ⟨e, he, hes.trans hs⟩)
    hstart
  exact ⟨e, ⟨_, _, ⟨rfl, rfl⟩, he⟩, hbare⟩

/-! ### Back edges are a function of the rest -/

/-- The table with the back edges of the keys `ks` at a position. -/
def edged (d : Database) (ks : List ForeignKey) (pos : Nat) (t : Table) : Table :=
  { t with
    referrers := collectIds ((d.keysTo ks pos).map (·.id))
    columns := t.columns.map fun c =>
      { c with referrers := collectIds (((d.keysTo ks pos).filter (c.name ∈ ·.foreignColumns)).map (·.id)) }
    containsForeignKey := t.refersByKey }

theorem Finalized.eq_edged (h : d.Finalized p) (ht : d.tables[pos]? = some t) : t = d.edged d.keys pos t.bare := by
  have hlinked := h.linked
  rw [keysBefore_length] at hlinked
  have hflag := (h.tables pos (List.getElem?_eq_some_iff.mp ht).1 t ht).flag
  -- Each part that `bare` drops is put back from the keys.
  have hcols : t.columns = (t.bare).columns.map fun c =>
      { c with referrers := collectIds (((d.keysTo d.keys pos).filter (c.name ∈ ·.foreignColumns)).map (·.id)) } := by
    rw [Table.bare_columns, List.map_map]
    conv_lhs => rw [← List.map_id t.columns]
    refine List.map_congr_left fun c hc => ?_
    have hput : ∀ ids, c.referrers = ids → c = { c with referrers := ids } := by
      rintro ids rfl
      rfl
    exact hput _ (hlinked.columns pos t ht c hc)
  have hput : t = { t.bare with
      columns := t.columns, referrers := t.referrers, containsForeignKey := t.containsForeignKey } := rfl
  rw [edged, Table.bare_refersByKey, ← hcols, ← hflag, ← hlinked.tables pos t ht]
  exact hput

theorem keys_bare (d : Database) : d.bare.keys = d.keys := by
  rw [keys, keys, bare, List.flatMap_map]
  rfl

/-- Finalized databases that agree but for back edges are equal. -/
theorem Finalized.eq_of_bare (hd : d.Finalized p) (he : e.Finalized p) (h : e.bare = d.bare) : e = d := by
  have hg := Grows.of_bare h
  have hkeys : e.keys = d.keys := by rw [← keys_bare e, h, keys_bare]
  have hedged : ∀ i t, e.edged e.keys i t = d.edged d.keys i t := fun i t => by
    unfold edged
    rw [hkeys, hg.keysTo]
  have htables : e.tables = d.tables := by
    apply List.ext_getElem?
    intro i
    cases ht : d.tables[i]? with
    | none =>
      rw [List.getElem?_eq_none_iff] at ht ⊢
      exact hg.length ▸ ht
    | some t =>
      obtain ⟨u, hu, hut⟩ := getElem?_bare h ht
      rw [hu, he.eq_edged hu, hut, hedged, ← hd.eq_edged ht]
  have hput := congrArg (fun f : Database => { f with tables := d.tables }) hg.rest
  rw [show e = { e with tables := d.tables } by rw [← htables]]
  exact hput

/-- A run over the tables of a finalized database ends where it began. -/
theorem Finalized.finalizeTables_self (h : d.Finalized p) :
    (finalizeTables p).Gives (Database.prepareTables d) () d := by
  obtain ⟨e, he, hbare⟩ := h.exists_finalizeTables
  have hfin := gives_finalizeTables h.names he
  rwa [h.eq_of_bare hfin hbare] at he

end Database

end Schemata
