import Schemata.Proofs.Idempotence

/-!
# Namespaces and names of tables

Namespace and name together tell the tables of a schema apart, across its databases. Building a schema and
merging others into it check this. Finalization does not: it keeps the namespace and the name of each table,
also where the namespace comes from the database, and gives an archive the namespace of its source, under a
name that is new in its database but may be taken in another one. That is all that can go wrong.
-/

namespace Schemata

/-! ### The check -/

namespace Database

/-- The namespaces and names of the tables. -/
def codeNames (d : Database) : List (String × String) :=
  d.tables.map fun t => (Schema.codeNameSpace d t, t.name)

theorem map_snd_codeNames (d : Database) : d.codeNames.map (·.2) = d.tableNames := by
  rw [codeNames, List.map_map]
  rfl

theorem nodup_codeNames {d : Database} (hd : d.tableNames.Nodup) : d.codeNames.Nodup :=
  List.Nodup.of_map (·.2) (d.map_snd_codeNames ▸ hd)

end Database

namespace Schema
variable {s t : Schema}

theorem firstRepeat?_eq_none {seen qs : List ((String × String) × String)} :
    firstRepeat? seen qs = none ↔ (qs.map (·.1)).Nodup ∧ ∀ q ∈ qs, q.1 ∉ seen.map (·.1) := by
  induction qs generalizing seen with
  | nil => simp [firstRepeat?]
  | cons q qs ih =>
    have hlookup : seen.lookup q.1 = none ↔ q.1 ∉ seen.map (·.1) := by
      simp only [List.lookup_eq_none_iff, List.mem_map, not_exists, not_and, bne_iff_ne]
      exact forall₂_congr fun p _ => ⟨fun h heq => h heq.symm, fun h heq => h heq.symm⟩
    rw [firstRepeat?, List.map_cons, List.nodup_cons, List.forall_mem_cons]
    cases hq : seen.lookup q.1 with
    | some previous =>
      constructor
      · intro h
        cases h
      · rintro ⟨-, hfresh, -⟩
        rw [hlookup.mpr hfresh] at hq
        cases hq
    | none =>
      dsimp only
      rw [ih]
      simp only [List.map_cons, List.mem_cons, not_or]
      constructor
      · rintro ⟨hnodup, hrest⟩
        refine ⟨⟨fun hmem => ?_, hnodup⟩, hlookup.mp hq, fun p hp => (hrest p hp).2⟩
        obtain ⟨p, hp, hpq⟩ := List.mem_map.mp hmem
        exact (hrest p hp).1 hpq
      · rintro ⟨⟨hfresh, hnodup⟩, -, hrest⟩
        exact ⟨hnodup, fun p hp => ⟨fun hpq => hfresh (List.mem_map.mpr ⟨p, hp, hpq⟩), hrest p hp⟩⟩

theorem map_fst_qualifiedNames (s : Schema) : s.qualifiedNames.map (·.1) = s.databases.flatMap (·.codeNames) := by
  simp only [qualifiedNames, List.map_flatMap, List.map_map, Database.codeNames]
  rfl

/-- Where the names of each database are distinct, the check compares the databases with each other. -/
theorem checkQualifiedNames_eq_ok (hs : ∀ d ∈ s.databases, d.tableNames.Nodup) :
    s.checkQualifiedNames = .ok () ↔ s.databases.Pairwise fun d e => d.codeNames.Disjoint e.codeNames := by
  have hcheck : s.checkQualifiedNames = .ok () ↔ firstRepeat? [] s.qualifiedNames = none := by
    unfold checkQualifiedNames
    cases firstRepeat? [] s.qualifiedNames with
    | none => simp
    | some q => simp
  rw [hcheck, firstRepeat?_eq_none, map_fst_qualifiedNames, List.nodup_flatMap]
  constructor
  · rintro ⟨⟨-, hdisjoint⟩, -⟩
    exact hdisjoint
  · intro hdisjoint
    exact ⟨⟨fun d hd => Database.nodup_codeNames (hs d hd), hdisjoint⟩, by simp⟩

end Schema

/-! ### What behaviors add -/

theorem Table.Grows.nameSpace {t u : Table} (h : t.Grows u) : u.nameSpace = t.nameSpace := by
  have := congrArg Table.nameSpace h.fixed
  exact this

namespace Database
variable {d e f : Database} {p : Platform} {limit : Nat} {ran : List HookRun} {w : Unit}

/-- The own namespaces and the names of the tables. -/
def ownNames (d : Database) : List (Option String × String) :=
  d.tables.map fun t => (t.nameSpace, t.name)

/-- From `d` to `e`, tables were appended that are in namespaces of tables of `d`. -/
structure Archiving (d e : Database) : Prop where
  nameSpace : e.nameSpace = d.nameSpace
  tables : ∃ new, e.ownNames = d.ownNames ++ new ∧ ∀ q ∈ new, ∃ t ∈ d.tables, q.1 = t.nameSpace

namespace Archiving

theorem of_eq (hs : e.nameSpace = d.nameSpace) (hn : e.ownNames = d.ownNames) : d.Archiving e :=
  ⟨hs, [], by rw [hn, List.append_nil], fun q hq => absurd hq List.not_mem_nil⟩

theorem of_withoutBehaviors (h : e.withoutBehaviors = d.withoutBehaviors) : d.Archiving e := by
  have hnames : ∀ f : Database, f.ownNames = f.withoutBehaviors.ownNames := fun f => by
    simp [ownNames, withoutBehaviors, Function.comp_def]
  have hspace := congrArg Database.nameSpace h
  exact .of_eq hspace (by rw [hnames e, h, ← hnames d])

theorem trans (h : d.Archiving e) (h' : e.Archiving f) : d.Archiving f := by
  obtain ⟨new, hnew, hfrom⟩ := h.tables
  obtain ⟨new', hnew', hfrom'⟩ := h'.tables
  refine ⟨h'.nameSpace.trans h.nameSpace, new ++ new', by rw [hnew', hnew, List.append_assoc], fun q hq => ?_⟩
  rcases List.mem_append.mp hq with hq | hq
  · exact hfrom q hq
  · -- A table of `e` that was appended is in a namespace of `d` in its turn.
    obtain ⟨u, hu, hqu⟩ := hfrom' q hq
    have hmem : (u.nameSpace, u.name) ∈ d.ownNames ++ new := hnew ▸ List.mem_map.mpr ⟨u, hu, rfl⟩
    rcases List.mem_append.mp hmem with hold | hadded
    · obtain ⟨t, ht, htu⟩ := List.mem_map.mp hold
      exact ⟨t, ht, hqu.trans (congrArg Prod.fst htu).symm⟩
    · obtain ⟨t, ht, htu⟩ := hfrom _ hadded
      exact ⟨t, ht, hqu.trans htu⟩

theorem of_grows (h : d.Grows e) : d.Archiving e :=
  .of_eq h.nameSpace
    (map_eq_of_forall₂ h.tables fun _ _ htu => Prod.ext (Table.Grows.nameSpace htu) (Table.Grows.name htu))

end Archiving

theorem builtin_settles_archiving : Registry.builtin.Settles Archiving where
  toHooksObey := Registry.builtin_hooksObey (fun _ => .of_eq rfl rfl) .of_grows fun {_ source t _} hsource _ ht => by
    refine ⟨rfl, [(t.nameSpace, t.name)], by simp [ownNames], fun q hq => ?_⟩
    rw [List.mem_singleton.mp hq]
    exact ⟨source, hsource, Archivable.nameSpace_archive ht⟩
  refl _ := .of_eq rfl rfl
  trans := .trans
  spread h := .of_withoutBehaviors (spread_withoutBehaviors h)
  mark k d := .of_withoutBehaviors (mark_withoutBehaviors k d)

/-! ### What finalization does to names -/

/-- The tables keep their namespaces and names, and the tables that are added have new names and namespaces of
    tables that were there. -/
structure KeepsCodeNames (d e : Database) : Prop where
  distinct : e.tableNames.Nodup
  codeNames : ∃ new, e.codeNames = d.codeNames ++ new ∧
    ∀ q ∈ new, d.hasTable q.2 = false ∧ ∃ t ∈ d.tables, q.1 = Schema.codeNameSpace d t

theorem keepsCodeNames_finalize (hd : d.DistinctNames) (h : (finalize limit .builtin p).Gives d ran e) :
    d.KeepsCodeNames e := by
  obtain ⟨m, hm, htables⟩ := gives_finalize.mp h
  obtain ⟨hspace, new, hnew, hfrom⟩ := builtin_settles_archiving.settle hm
  have hdm : m.DistinctNames :=
    (Registry.builtin_keeps_distinctNames.settles_of_iff distinctNames_withoutBehaviors).settle hm hd
  have hgrows : (prepareTables m).Grows e := grows_finalizeTables htables
  have hde : e.tableNames.Nodup := (hgrows.distinctNames (prepareTables_distinctNames hdm)).tables
  -- The namespace that a table takes over from its database is the one of its code before.
  have hprepared : (prepareTables m).codeNames = m.codeNames := by
    simp only [codeNames, prepareTables, List.map_map]
    refine List.map_congr_left fun t _ => ?_
    show (((t.nameSpace.or m.nameSpace).or m.nameSpace).getD "", t.name) = ((t.nameSpace.or m.nameSpace).getD "", t.name)
    rw [Option.or_assoc, Option.or_self]
  have hfinal : e.codeNames = (prepareTables m).codeNames := by
    refine map_eq_of_forall₂ hgrows.tables fun t u htu => ?_
    rw [Schema.codeNameSpace, Schema.codeNameSpace, hgrows.nameSpace, Table.Grows.nameSpace htu, Table.Grows.name htu]
  have hof : ∀ f : Database, f.codeNames = f.ownNames.map fun q => ((q.1.or f.nameSpace).getD "", q.2) := fun f => by
    rw [ownNames, List.map_map]
    rfl
  have hcodeNames : e.codeNames = d.codeNames ++ new.map fun q => ((q.1.or d.nameSpace).getD "", q.2) := by
    rw [hfinal, hprepared, hof m, hnew, hspace, List.map_append, ← hof d]
  refine ⟨hde, _, hcodeNames, fun q hq => ?_⟩
  constructor
  · have hnames := congrArg (List.map (·.2)) hcodeNames
    rw [map_snd_codeNames, List.map_append, map_snd_codeNames] at hnames
    rw [hnames] at hde
    rw [hasTable, List.any_eq_false]
    intro t ht heq
    have hname : t.name = q.2 := by simpa using heq
    exact (List.nodup_append'.mp hde).2.2 (List.mem_map.mpr ⟨t, ht, rfl⟩) (hname ▸ List.mem_map.mpr ⟨q, hq, rfl⟩)
  · obtain ⟨r, hr, rfl⟩ := List.mem_map.mp hq
    obtain ⟨t, ht, hrt⟩ := hfrom r hr
    exact ⟨t, ht, by rw [hrt, Schema.codeNameSpace]⟩

end Database

namespace Schema
variable {s t : Schema} {p : Platform} {limit : Nat} {w : Unit}

theorem pairwise_iff_getElem? {α : Type} {R : α → α → Prop} {l : List α} :
    l.Pairwise R ↔ ∀ (i j : Nat) a b, i < j → l[i]? = some a → l[j]? = some b → R a b := by
  rw [List.pairwise_iff_getElem]
  constructor
  · intro h i j a b hij ha hb
    obtain ⟨hi, rfl⟩ := List.getElem?_eq_some_iff.mp ha
    obtain ⟨hj, rfl⟩ := List.getElem?_eq_some_iff.mp hb
    exact h i j hi hj hij
  · intro h i j hi hj hij
    exact h i j _ _ hij (List.getElem?_eq_getElem hi) (List.getElem?_eq_getElem hj)

theorem keepsCodeNames_finalize (hs : ∀ d ∈ s.databases, d.DistinctNames) (h : (finalize limit .builtin p).Gives s w t) :
    List.Forall₂ Database.KeepsCodeNames s.databases t.databases := by
  obtain ⟨ds, hds, rfl⟩ := gives_finalize.mp h
  exact ((List.forall₂_and_left _ _).mpr ⟨hs, hds⟩).imp fun d e ⟨hd, ran, hran⟩ => Database.keepsCodeNames_finalize hd hran

/-- After finalization namespaces and names are unique across the schema exactly where no table that a behavior
    added to one database has the namespace and the name of a table in another one. Such a table is in a
    namespace of its database from before, under a name that was free there. -/
theorem checkQualifiedNames_finalize_iff (hs : ∀ d ∈ s.databases, d.DistinctNames)
    (hcheck : s.checkQualifiedNames = .ok ())
    (h : (finalize limit .builtin p).Gives s w t) :
    (t.checkQualifiedNames = .ok () ↔
      ∀ (i j : Nat) d e f, i ≠ j → s.databases[i]? = some d → t.databases[i]? = some e → t.databases[j]? = some f →
        ∀ q ∈ e.codeNames, d.hasTable q.2 = false → q ∉ f.codeNames) ∧
      ∀ (i : Nat) d e, s.databases[i]? = some d → t.databases[i]? = some e → d.KeepsCodeNames e := by
  have hkeeps := keepsCodeNames_finalize hs h
  have hdistinct : ∀ e ∈ t.databases, e.tableNames.Nodup := by
    intro e he
    obtain ⟨i, hi⟩ := List.getElem?_of_mem he
    obtain ⟨_, _, hk⟩ := forall₂_getElem? hkeeps hi
    exact hk.distinct
  refine ⟨?_, fun i d e hd he => ?_⟩
  · rw [checkQualifiedNames_eq_ok hdistinct, pairwise_iff_getElem?]
    rw [checkQualifiedNames_eq_ok fun d hd => (hs d hd).tables, pairwise_iff_getElem?] at hcheck
    constructor
    · intro hall i j d e f hij hd he hf q hqe _ hqf
      rcases Nat.lt_or_gt_of_ne hij with hlt | hgt
      · exact hall i j e f hlt he hf hqe hqf
      · exact hall j i f e hgt hf he hqf hqe
    · intro hall i j e f hij he hf q hqe hqf
      obtain ⟨d, hd, hde⟩ := forall₂_getElem? hkeeps he
      obtain ⟨c, hc, hcf⟩ := forall₂_getElem? hkeeps hf
      obtain ⟨new, hnew, hfrom⟩ := hde.codeNames
      obtain ⟨new', hnew', hfrom'⟩ := hcf.codeNames
      -- One of the two tables was added, since those that were there passed the check.
      rcases List.mem_append.mp (hnew ▸ hqe) with hold | hadded
      · rcases List.mem_append.mp (hnew' ▸ hqf) with hold' | hadded'
        · exact hcheck i j d c hij hd hc hold hold'
        · exact hall j i c f e (Nat.ne_of_gt hij) hc hf he q hqf (hfrom' q hadded').1 hqe
      · exact hall i j d e f (Nat.ne_of_lt hij) hd he hf q hqe (hfrom q hadded).1 hqf
  · obtain ⟨e', he', hk⟩ := getElem?_of_forall₂ hkeeps hd
    obtain rfl := Option.some.inj (he.symm.trans he')
    exact hk

/-- The books of a shop are archived, and a depot in some namespace has a table of the name of the archive. -/
def bookshop (nameSpace : Option String) : Schema where
  databases :=
    [{ name := "shop"
       tables :=
         [{ name := "book"
            columns := [{ name := "id", domain := { type := .integer }, primaryKey := true }]
            behaviors :=
              [{ name := "archivable"
                 id := "archivable"
                 parameters := Dictionary.ofList Archivable.plugin.defaults
                 table := some "book" }] }] },
     { name := "depot"
       nameSpace := nameSpace
       tables :=
         [{ name := "book_archive"
            columns := [{ name := "id", domain := { type := .integer }, primaryKey := true }] }] }]

def finalizedBookshop (nameSpace : Option String) : Schema :=
  (finalize settleLimit .builtin (.plain .generic) (bookshop nameSpace)).state

/-- With the depot in a namespace of its own, the archive of the shop is not in its way. -/
theorem checkQualifiedNames_finalize_iff_bookshop :
    (∀ d ∈ (bookshop (some "Depot")).databases, d.DistinctNames) ∧
      (bookshop (some "Depot")).checkQualifiedNames = .ok () ∧
      (finalize settleLimit .builtin (.plain .generic)).Gives (bookshop (some "Depot")) ()
        (finalizedBookshop (some "Depot")) ∧
      (finalizedBookshop (some "Depot")).checkQualifiedNames = .ok () ∧
      ∃ shop depot, (finalizedBookshop (some "Depot")).databases = [shop, depot] ∧
        shop.codeNames = [("", "book"), ("", "book_archive")] ∧ ("", "book_archive") ∉ depot.codeNames := by
  have hs : ∀ d ∈ (bookshop (some "Depot")).databases, d.DistinctNames := by decide
  have h : (finalize settleLimit .builtin (.plain .generic)).Gives (bookshop (some "Depot")) ()
      (finalizedBookshop (some "Depot")) := ⟨rfl, rfl⟩
  have hcheck : (finalizedBookshop (some "Depot")).checkQualifiedNames = .ok () := rfl
  obtain ⟨hiff, -⟩ := checkQualifiedNames_finalize_iff hs rfl h
  have hfree := hiff.mp hcheck 0 1 _ _ _ (by decide) rfl rfl rfl ("", "book_archive") (by decide) rfl
  exact ⟨hs, rfl, h, hcheck, _, _, rfl, rfl, hfree⟩

/-- Without namespaces, the check passes before finalization and fails afterwards. -/
theorem archive_takes_code_name :
    (∀ d ∈ (bookshop none).databases, d.DistinctNames) ∧ (bookshop none).checkQualifiedNames = .ok () ∧
      (finalize settleLimit .builtin (.plain .generic)).Gives (bookshop none) () (finalizedBookshop none) ∧
      (finalizedBookshop none).checkQualifiedNames =
        .error (.constraint (.duplicateQualifiedName "book_archive" "" "shop" "depot")) :=
  ⟨by decide, rfl, ⟨rfl, rfl⟩, rfl⟩

end Schema

end Schemata
