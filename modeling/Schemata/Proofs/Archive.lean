import Schemata.Proofs.Origins
import Schemata.Proofs.Finalize

/-!
# What an archive holds

The archive of a table is a copy that is made when the behavior runs. It has the columns that the table
has by then; those that the table gets later, for behaviors that run later or for implicit keys, it has
not.
-/

namespace Schemata

namespace Database
variable {d e f : Database} {es fs : List Event} {pos : Nat} {t u : Table} {source archive name : String}

/-! ### Columns of a database -/

/-- The archive has the columns of its source, but for those that are in the log. -/
def Archives (e : Database) (source archive : String) (after : List Event) : Prop :=
  ∃ t u, e.table? source = some t ∧ e.table? archive = some u ∧ ∀ x ∈ t.shapes, x ∈ u.shapes ∨ Adds source x.1 after

/-- Tables gain columns in their places, and each archive that the log names is there. -/
structure Gains (d : Database) (es : List Event) (e : Database) : Prop where
  tables : ∀ (pos : Nat) t, d.tables[pos]? = some t → ∃ u, e.tables[pos]? = some u ∧ t.Gains es u
  archives : ∀ before source archive after, es = before ++ .addingArchive source archive :: after →
    e.Archives source archive after

namespace Gains

theorem table? (h : d.Gains es e) (ht : d.table? name = some t) : ∃ u, e.table? name = some u ∧ t.Gains es u :=
  find?_of_getElem? h.tables (fun t u htu => by rw [htu.name]) ht

theorem of_forall₂ (h : List.Forall₂ (fun t u => t.Gains es u) d.tables e.tables) (hno : AddsNoArchive es) :
    d.Gains es e where
  tables := fun pos t ht => getElem?_of_forall₂ h ht
  archives := fun before source archive after hes => by
    refine absurd ?_ (hno source archive)
    rw [hes]
    exact List.mem_append_right before List.mem_cons_self

theorem of_set (ht : d.tables[pos]? = some t) (h : t.Traces es u) :
    d.Gains es { d with tables := d.tables.set pos u } :=
  of_forall₂ (forall₂_set (fun t => Table.Gains.refl t es) ht h.1) h.2

end Gains

theorem Archives.gains (h : d.Archives source archive es) (hg : d.Gains fs e) :
    e.Archives source archive (es ++ fs) := by
  obtain ⟨t, a, ht, ha, hcols⟩ := h
  obtain ⟨u, hu, htu⟩ := hg.table? ht
  obtain ⟨b, hb, hab⟩ := hg.table? ha
  have hname : t.name = source := by simpa using List.find?_some ht
  refine ⟨u, b, hu, hb, fun x hx => ?_⟩
  rcases htu.origin x hx with hx | hadds
  · rcases hcols x hx with hx | hadds
    · exact Or.inl (hab.kept hx)
    · exact Or.inr (hadds.append_left fs)
  · exact Or.inr ((hname ▸ hadds).append_right es)

theorem gains_trail : Trail Gains where
  refl := fun d => .of_forall₂ (List.forall₂_same.mpr fun t _ => .refl t []) fun _ _ h => by cases h
  trans := fun {d e f es fs} h h' => by
    refine ⟨fun pos t ht => ?_, fun before source archive after heq => ?_⟩
    · obtain ⟨u, hu, htu⟩ := h.tables pos t ht
      obtain ⟨v, hv, huv⟩ := h'.tables pos u hu
      exact ⟨v, hv, htu.trans huv⟩
    · -- The archive is named by the first log or by the second one.
      rcases List.append_eq_append_iff.mp heq with ⟨mid, rfl, hfs⟩ | ⟨mid, hes, hrest⟩
      · exact h'.archives mid source archive after hfs
      · cases mid with
        | nil => exact h'.archives [] source archive after hrest.symm
        | cons x mid =>
          obtain ⟨rfl, rfl⟩ := List.cons.inj hrest
          exact (h.archives before source archive mid hes).gains h'

end Database

namespace Archivable
variable {b : Behavior} {t u v : Table} {name : String}

theorem shapes_withoutAutoIncrement (t : Table) : (withoutAutoIncrement t).shapes = t.shapes := by
  have hall : ∀ (names : List String) (t : Table),
      (names.foldl (fun t name => t.modifyColumn name ({ · with autoIncrement := false })) t).shapes = t.shapes := by
    intro names
    induction names with
    | nil => exact fun _ => rfl
    | cons name names ih =>
      intro t
      rw [List.foldl_cons, ih]
      exact map_modifyFirst (f := fun c : Column => { c with autoIncrement := false }) (fun _ => rfl) t.columns
  exact hall _ t

/-- An archive starts with the columns that its source has. -/
theorem shapes_archive {source : Table} (h : archive source name b = .ok t) : source.shapes ⊆ t.shapes := by
  simp only [archive, bind, Except.bind] at h
  split at h
  · cases h
  rename_i v hv
  have hcopy : v.shapes = source.shapes := by
    rw [addPlainIndices_indices hv]
    exact Table.shapes_clearReferrers source
  obtain ⟨new, hcols, -⟩ := (addArchivedColumn_eq h).columns
  rw [← hcopy, ← shapes_withoutAutoIncrement v, Table.shapes, Table.shapes, hcols, List.map_append]
  exact List.subset_append_left _ _

end Archivable

namespace Database
variable {d e : Database} {es : List Event} {p : Platform} {limit : Nat}

theorem gains_archive {source : Table} {name archive : String} {b : Behavior} {t : Table}
    (hfree : d.hasTable archive = false) (hsource : d.table? name = some source)
    (ht : Archivable.archive source archive b = .ok t) :
    d.Gains [.addingArchive name archive] { d with tables := d.tables ++ [t] } := by
  have hname := (Archivable.archive_eq_ok ht).1
  refine ⟨fun pos u hu => ⟨u, ?_, .refl u _⟩, fun before s a after heq => ?_⟩
  · have hlt := (List.getElem?_eq_some_iff.mp hu).1
    show (d.tables ++ [t])[pos]? = some u
    rwa [List.getElem?_append_left hlt]
  · have hbefore : before = [] ∧ after = [] ∧ s = name ∧ a = archive := by
      cases before with
      | nil =>
        obtain ⟨hx, rfl⟩ := List.cons.inj heq
        cases hx
        exact ⟨rfl, rfl, rfl, rfl⟩
      | cons x before => simp at heq
    obtain ⟨rfl, rfl, rfl, rfl⟩ := hbefore
    refine ⟨source, t, ?_, ?_, fun x hx => Or.inl (Archivable.shapes_archive ht hx)⟩
    · show (d.tables ++ [t]).find? _ = some source
      rw [List.find?_append, show d.tables.find? _ = some source from hsource, Option.some_or]
    · have hnone : d.tables.find? (·.name == a) = none := by
        simpa [hasTable, List.find?_eq_none] using hfree
      show (d.tables ++ [t]).find? _ = some t
      rw [List.find?_append, hnone, Option.none_or]
      simp [hname]

theorem gains_step (h : Step d es e) : d.Gains es e := by
  have hsame : ∀ es : List Event, List.Forall₂ (fun t u : Table => t.Gains es u) d.tables d.tables := fun es =>
    List.forall₂_same.mpr fun t _ => .refl t es
  cases h with
  | told other =>
    exact .of_forall₂ (hsame _) fun source archive hmem => other source archive (List.mem_singleton.mp hmem).symm
  | table here steps => exact .of_set here (Table.traces_steps steps)
  | tables each =>
    refine .of_forall₂ (each.imp fun t u htu => ?_) fun _ _ hmem => by cases hmem
    rcases htu with rfl | hstep
    · exact .refl u []
    · exact Table.gains_step hstep
  | archive free found copied => exact gains_archive free found copied
  | executed id => exact .of_forall₂ (hsame _) fun _ _ hmem => by cases hmem

theorem gains_finalize (limit : Nat) (p : Platform) (d : Database) : (finalize limit .builtin p).Follows Gains d :=
  (steps_finalize limit p d).lift gains_trail gains_step

/-- An archive that finalization adds has each column that its source has in the end, with the same
    domain, but for the columns that the source got after the archive was added. -/
theorem archive_holds_columns {before after : List Event} {source archive : String}
    (h : (finalize limit .builtin p d).log = before ++ .addingArchive source archive :: after) :
    ∃ t u, (finalize limit .builtin p d).state.table? source = some t ∧
      (finalize limit .builtin p d).state.table? archive = some u ∧
      ∀ c ∈ t.columns, (∃ b ∈ u.columns, b.name = c.name ∧ b.domain = c.domain) ∨
        .addingTimestamp source c.name ∈ after ∨ .addingImplicitColumn source c.name ∈ after := by
  obtain ⟨t, u, ht, hu, hcols⟩ := (gains_finalize limit p d).archives before source archive after h
  refine ⟨t, u, ht, hu, fun c hc => (hcols _ (List.mem_map.mpr ⟨c, hc, rfl⟩)).imp (fun hmem => ?_) id⟩
  obtain ⟨b, hb, hbc⟩ := List.mem_map.mp hmem
  exact ⟨b, hb, congrArg Prod.fst hbc, congrArg Prod.snd hbc⟩

/-! ### An example -/

/-- Books are archived before they get timestamps and before the column for their owner is added. -/
def attic : Database where
  name := "attic"
  tables :=
    [{ name := "book"
       columns := [{ name := "id", domain := { type := .integer }, primaryKey := true }]
       foreignKeys := [{ name := "owner", target := "reader", table := "book" }]
       behaviors :=
         [{ name := "archivable"
            id := "archivable"
            parameters := Dictionary.ofList Archivable.plugin.defaults
            table := some "book" },
          { name := "timestampable"
            id := "timestampable"
            parameters := Dictionary.ofList Timestampable.plugin.defaults
            table := some "book" }] },
     { name := "reader"
       columns := [{ name := "id", domain := { type := .integer }, primaryKey := true }] }]

def finalizedAttic : Outcome Error Database (List HookRun) :=
  finalize settleLimit .builtin (.plain .generic) attic

def logAfterArchive : List Event :=
  [.runningTableBehavior "book" "timestampable", .addingTimestamp "book" "created_at",
    .addingTimestamp "book" "updated_at", .droppedIdMethod "book", .addingImplicitColumn "book" "ownerId",
    .registeredReferrer "book.owner" "reader", .droppedIdMethod "reader", .finalizedDatabase "attic" 3]

theorem archive_holds_columns_attic :
    finalizedAttic.log =
      [.runningTableBehavior "book" "archivable"] ++ .addingArchive "book" "book_archive" :: logAfterArchive ∧
    ∃ t u, finalizedAttic.state.table? "book" = some t ∧ finalizedAttic.state.table? "book_archive" = some u ∧
      ∀ c ∈ t.columns, (∃ b ∈ u.columns, b.name = c.name ∧ b.domain = c.domain) ∨
        .addingTimestamp "book" c.name ∈ logAfterArchive ∨ .addingImplicitColumn "book" c.name ∈ logAfterArchive := by
  have hlog : finalizedAttic.log =
      [.runningTableBehavior "book" "archivable"] ++ .addingArchive "book" "book_archive" :: logAfterArchive := rfl
  exact ⟨hlog, archive_holds_columns hlog⟩

/-- The archive of the books has neither the times nor the owner of a book. -/
theorem archive_misses_columns :
    attic.Distinct ∧ attic.OwnsKeys ∧ attic.table? "book_archive" = none ∧
      finalizedAttic.result = .ok [.table "book" "archivable", .table "book" "timestampable"] ∧
      ((finalizedAttic.state.table? "book").map fun t => t.columns.map (·.name)) =
        some ["id", "created_at", "updated_at", "ownerId"] ∧
      ((finalizedAttic.state.table? "book_archive").map fun t => t.columns.map (·.name)) =
        some ["id", "archived_at"] :=
  ⟨by decide, by decide, rfl, rfl, rfl, rfl⟩

end Database

end Schemata
