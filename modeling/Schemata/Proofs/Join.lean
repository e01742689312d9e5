import Schemata.Proofs.Arrivals

/-!
# Joining schemas

Joining is defined where no table meets another one of its name in a database of its name, and then gives
the databases of both schemas with all their tables. As an operation on three schemas it does not matter
which two are joined first: both groupings are defined when the three are pairwise apart, and they give the
same schema. A schema without databases and includes is neutral.
-/

namespace Schemata

open Change

section Arriving
variable {as bs cs ds es : List Database} {d e : Database} {home : String → String}

/-- Where names are distinct, the tables that arrive at a name are those of one database. -/
theorem arriving_id_of_mem (hes : (es.map (·.name)).Nodup) (he : e ∈ es) : arriving id es e.name = e.tables := by
  induction es with
  | nil => cases he
  | cons f es ih =>
    obtain ⟨hnew, hes⟩ := List.nodup_cons.mp hes
    rw [← List.singleton_append, arriving_append, arriving_singleton, id]
    rcases List.mem_cons.mp he with rfl | he
    · have hrest : ∀ f ∈ es, id f.name ≠ e.name := fun f hf heq => hnew (List.mem_map.mpr ⟨f, hf, heq⟩)
      rw [if_pos rfl, arriving_eq_nil hrest, List.append_nil]
    · have hne : f.name ≠ e.name := fun heq => hnew (List.mem_map.mpr ⟨e, he, heq.symm⟩)
      rw [if_neg hne, List.nil_append, ih hes he]

theorem homes_id (ds : List Database) : Homes id ds := fun _ => .inr rfl

/-- At a merged list arrives what arrives at both. -/
theorem arriving_merged_id (hds : (ds.map (·.name)).Nodup) (hes : (es.map (·.name)).Nodup) (name : String) :
    arriving id (merged id ds es) name = arriving id ds name ++ arriving id es name := by
  by_cases hname : name ∈ ds.map (·.name)
  · obtain ⟨d, hd, rfl⟩ := List.mem_map.mp hname
    have hmem : d.withTables (arriving id es d.name) ∈ merged id ds es := mem_merged.mpr (.inl ⟨d, hd, rfl⟩)
    have hone := arriving_id_of_mem (nodup_names_merged (homes_id ds) hds hes) hmem
    rw [Database.name_withTables] at hone
    rw [hone, arriving_id_of_mem hds hd, Database.tables_withTables]
  · have hnone : ∀ d ∈ ds, id d.name ≠ name := fun d hd heq => hname (heq ▸ List.mem_map_of_mem hd)
    have hown : ∀ d ∈ ds.map (fun d => d.withTables (arriving id es d.name)), id d.name ≠ name := by
      simpa using hnone
    -- What arrives at a name that is not in `ds` has been appended.
    rw [merged, arriving_append, arriving_eq_nil hown, arriving_eq_nil hnone, arriving, List.filter_filter, arriving]
    refine congrArg (List.flatMap _) (List.filter_congr fun e _ => ?_)
    by_cases he : e.name = name <;> simp [he, hname]

theorem mem_names_merged_id {name : String} :
    name ∈ (merged id ds es).map (·.name) ↔ name ∈ ds.map (·.name) ∨ name ∈ es.map (·.name) := by
  rw [names_merged, List.mem_append]
  by_cases hname : name ∈ ds.map (·.name)
  · simp only [hname, true_or]
  · simp only [hname, false_or, List.mem_map, List.mem_filter]
    refine exists_congr fun e => and_congr_left fun heq => and_iff_left ?_
    simpa [heq] using hname

theorem merged_id_assoc (hbs : (bs.map (·.name)).Nodup) (hcs : (cs.map (·.name)).Nodup) :
    merged id (merged id as bs) cs = merged id as (merged id bs cs) := by
  -- First come the databases of `as`, then those of `bs` that are not in `as`, then those of `cs` that are in neither.
  have hown : (merged id as bs).map (fun d => d.withTables (arriving id cs d.name)) =
      as.map (fun d => d.withTables (arriving id (merged id bs cs) d.name)) ++
        (bs.filter fun d => id d.name ∉ as.map (·.name)).map fun d => d.withTables (arriving id cs d.name) := by
    rw [merged, List.map_append, List.map_map]
    refine congrArg (· ++ _) (List.map_congr_left fun d _ => ?_)
    rw [arriving_merged_id hbs hcs, Function.comp, Database.name_withTables, Database.withTables_withTables]
  have hnew : (merged id bs cs).filter (fun d => id d.name ∉ as.map (·.name)) =
      (bs.filter fun d => id d.name ∉ as.map (·.name)).map (fun d => d.withTables (arriving id cs d.name)) ++
        cs.filter fun d => id d.name ∉ (merged id as bs).map (·.name) := by
    rw [merged, List.filter_append, List.filter_map, List.filter_filter]
    refine congrArg₂ (· ++ ·) rfl (List.filter_congr fun e _ => ?_)
    simp only [id, mem_names_merged_id, not_or, Bool.decide_and]
  rw [merged, hown, List.append_assoc, ← hnew, ← merged]

/-- The names of a database and of one of its tables. -/
def Holds (ds : List Database) (database table : String) : Prop :=
  ∃ d ∈ ds, d.name = database ∧ table ∈ d.tableNames

theorem holds_merged_id {database table : String} :
    Holds (merged id ds es) database table ↔ Holds ds database table ∨ Holds es database table := by
  constructor
  · rintro ⟨d, hd, hname, htable⟩
    rcases mem_merged.mp hd with ⟨c, hc, rfl⟩ | ⟨hd, -⟩
    · rw [Database.tableNames_withTables] at htable
      rcases List.mem_append.mp htable with htable | htable
      · exact .inl ⟨c, hc, hname, htable⟩
      · obtain ⟨t, ht, rfl⟩ := List.mem_map.mp htable
        obtain ⟨e, he, heq, hte⟩ := mem_arriving.mp ht
        exact .inr ⟨e, he, heq.trans hname, List.mem_map_of_mem hte⟩
    · exact .inr ⟨d, hd, hname, htable⟩
  · rintro (⟨d, hd, hname, htable⟩ | ⟨e, he, hname, htable⟩)
    · refine ⟨_, mem_merged.mpr (.inl ⟨d, hd, rfl⟩), hname, ?_⟩
      rw [Database.tableNames_withTables]
      exact List.mem_append_left _ htable
    · by_cases hmem : e.name ∈ ds.map (·.name)
      · obtain ⟨d, hd, heq⟩ := List.mem_map.mp hmem
        obtain ⟨t, ht, rfl⟩ := List.mem_map.mp htable
        refine ⟨_, mem_merged.mpr (.inl ⟨d, hd, rfl⟩), heq.trans hname, ?_⟩
        rw [Database.tableNames_withTables]
        exact List.mem_append_right _ (List.mem_map_of_mem (mem_arriving.mpr ⟨e, he, heq.symm, ht⟩))
      · exact ⟨e, mem_merged.mpr (.inr ⟨he, hmem⟩), hname, htable⟩

end Arriving

/-! ### Joining -/

namespace Schema
variable {a b c s t other : Schema}

/-- No two databases have the same name, and no two tables of a database. -/
structure Distinct (s : Schema) : Prop where
  databases : (s.databases.map (·.name)).Nodup
  tables : ∀ d ∈ s.databases, d.tableNames.Nodup

/-- Databases of the same name have no table name in common. -/
def Apart (s t : Schema) : Prop :=
  ∀ d ∈ s.databases, ∀ e ∈ t.databases, d.name = e.name → ∀ x ∈ d.tableNames, x ∉ e.tableNames

/-- What joining gives where it succeeds. -/
def joined (s other : Schema) : Schema :=
  { s with databases := merged id s.databases other.databases, includes := s.includes ++ other.includes }

theorem takesIn_joinDatabase {ds : List Database} (hds : (ds.map (·.name)).Nodup) {e : Database}
    (he : e.tableNames.Nodup) : TakesIn (joinDatabase e) id ds e := fun us => by
  simp only [joinDatabase, gives_bind, gives_get]
  rcases findIdx?_home e.name ds with ⟨pos, d, hpos, hd, hname⟩ | ⟨hnone, hnew⟩
  · rw [merged_singleton_of_mem hds hd hname, admissible_singleton_of_mem hds (List.mem_of_getElem? hd) hname,
      ← gives_addTablesAt hd]
    simp [hpos]
  · rw [merged_singleton_of_not_mem hnew, admissible_singleton_of_not_mem hnew]
    simp [hnone, he]

theorem admissible_iff_apart (ht : t.Distinct) : Admissible id s.databases t.databases ↔ s.Apart t := by
  constructor
  · rintro hadmissible d hd e he hname x hx hxe
    obtain ⟨y, hy, rfl⟩ := List.mem_map.mp hxe
    exact (hadmissible.tables d hd).2 y (mem_arriving.mpr ⟨e, he, hname.symm, hy⟩) hx
  · intro hapart
    refine ⟨fun d hd => ?_, fun e he _ => ht.tables e he⟩
    by_cases hname : ∃ e ∈ t.databases, e.name = d.name
    · obtain ⟨e, he, hname⟩ := hname
      rw [← hname, arriving_id_of_mem ht.databases he]
      exact ⟨ht.tables e he, fun y hy hyd => hapart d hd e he hname.symm _ hyd (List.mem_map_of_mem hy)⟩
    · rw [arriving_eq_nil fun e he heq => hname ⟨e, he, heq⟩]
      exact d.admits_nil

theorem gives_join_iff : (join other).Gives s () t ↔
    ∃ ds, (forEach joinDatabase other.databases).Gives s.databases () ds ∧
      t = { s with databases := ds, includes := s.includes ++ other.includes } := by
  simp only [join, gives_bind, gives_within, gives_modify]
  constructor
  · rintro ⟨⟨⟩, _, ⟨ds, hds, rfl⟩, rfl⟩
    exact ⟨ds, hds, rfl⟩
  · rintro ⟨ds, hds, rfl⟩
    exact ⟨(), _, ⟨ds, hds, rfl⟩, rfl⟩

/-- Joining succeeds where the schemas are apart. -/
theorem gives_join (hs : s.Distinct) (hother : other.Distinct) :
    (join other).Gives s () t ↔ s.Apart other ∧ t = s.joined other := by
  have step : ∀ e ∈ other.databases, ∀ ds : List Database, (ds.map (·.name)).Nodup →
      TakesIn (joinDatabase e) id ds e ∧ ((merged id ds [e]).map (·.name)).Nodup := fun e he ds hds =>
    ⟨takesIn_joinDatabase hds (hother.tables e he), nodup_names_merged (homes_id ds) hds (List.nodup_singleton _)⟩
  have hall : ∀ us, (forEach joinDatabase other.databases).Gives s.databases () us ↔
      s.Apart other ∧ us = merged id s.databases other.databases := fun us => by
    rw [gives_forEach_takesIn step (by simpa using hother.databases) (homes_id _) hs.databases, List.map_id',
      admissible_iff_apart hother]
  simp only [gives_join_iff, hall]
  constructor
  · rintro ⟨_, ⟨hapart, rfl⟩, rfl⟩
    exact ⟨hapart, rfl⟩
  · rintro ⟨hapart, rfl⟩
    exact ⟨_, ⟨hapart, rfl⟩, rfl⟩

theorem Distinct.joined (hs : s.Distinct) (hother : other.Distinct) (h : s.Apart other) :
    (s.joined other).Distinct where
  databases := nodup_names_merged (homes_id _) hs.databases hother.databases
  tables d hd := by
    rcases mem_merged.mp hd with ⟨c, hc, rfl⟩ | ⟨hd, -⟩
    · exact (((admissible_iff_apart hother).mpr h).tables c hc).nodup_withTables (hs.tables c hc)
    · exact hother.tables d hd

theorem apart_iff_holds : s.Apart t ↔ ∀ d x, Holds s.databases d x → ¬Holds t.databases d x := by
  constructor
  · rintro hapart _ x ⟨d, hd, rfl, hx⟩ ⟨e, he, hname, hxe⟩
    exact hapart d hd e he hname.symm x hx hxe
  · intro h d hd e he hname x hx hxe
    exact h d.name x ⟨d, hd, rfl, hx⟩ ⟨e, he, hname.symm, hxe⟩

theorem joined_apart : (a.joined b).Apart c ↔ a.Apart c ∧ b.Apart c := by
  simp only [apart_iff_holds, joined, holds_merged_id, or_imp, forall_and]

theorem apart_joined : a.Apart (b.joined c) ↔ a.Apart b ∧ a.Apart c := by
  simp only [apart_iff_holds, joined, holds_merged_id, not_or, imp_and, forall_and]

theorem joined_assoc (hb : b.Distinct) (hc : c.Distinct) : (a.joined b).joined c = a.joined (b.joined c) := by
  simp only [joined, merged_id_assoc hb.databases hc.databases, List.append_assoc]

theorem join_twice (ha : a.Distinct) (hb : b.Distinct) (hc : c.Distinct) :
    (∃ ab, (join b).Gives a () ab ∧ (join c).Gives ab () s) ↔
      (a.Apart b ∧ a.Apart c ∧ b.Apart c) ∧ s = (a.joined b).joined c := by
  constructor
  · rintro ⟨_, hab, hs⟩
    obtain ⟨hapart, rfl⟩ := (gives_join ha hb).mp hab
    obtain ⟨hrest, rfl⟩ := (gives_join (ha.joined hb hapart) hc).mp hs
    exact ⟨⟨hapart, joined_apart.mp hrest⟩, rfl⟩
  · rintro ⟨⟨hapart, hrest⟩, rfl⟩
    exact ⟨_, (gives_join ha hb).mpr ⟨hapart, rfl⟩,
      (gives_join (ha.joined hb hapart) hc).mpr ⟨joined_apart.mpr hrest, rfl⟩⟩

theorem join_of_joined (ha : a.Distinct) (hb : b.Distinct) (hc : c.Distinct) :
    (∃ bc, (join c).Gives b () bc ∧ (join bc).Gives a () s) ↔
      (a.Apart b ∧ a.Apart c ∧ b.Apart c) ∧ s = a.joined (b.joined c) := by
  constructor
  · rintro ⟨_, hbc, hs⟩
    obtain ⟨hapart, rfl⟩ := (gives_join hb hc).mp hbc
    obtain ⟨hrest, rfl⟩ := (gives_join ha (hb.joined hc hapart)).mp hs
    obtain ⟨hab, hac⟩ := apart_joined.mp hrest
    exact ⟨⟨hab, hac, hapart⟩, rfl⟩
  · rintro ⟨⟨hab, hac, hapart⟩, rfl⟩
    exact ⟨_, (gives_join hb hc).mpr ⟨hapart, rfl⟩,
      (gives_join ha (hb.joined hc hapart)).mpr ⟨apart_joined.mpr ⟨hab, hac⟩, rfl⟩⟩

/-- Joining is associative, also in where it is defined: both groupings succeed if and only if each two of the three
    schemas are apart, and then they give the same schema. A schema without databases and includes is neutral on the
    right. -/
theorem join_associative (ha : a.Distinct) (hb : b.Distinct) (hc : c.Distinct) :
    (∀ s, (∃ ab, (join b).Gives a () ab ∧ (join c).Gives ab () s) ↔
        ∃ bc, (join c).Gives b () bc ∧ (join bc).Gives a () s) ∧
      ((∃ s ab, (join b).Gives a () ab ∧ (join c).Gives ab () s) ↔ a.Apart b ∧ a.Apart c ∧ b.Apart c) ∧
      ∀ e : Schema, e.databases = [] → e.includes = [] → (join e).Gives a () a := by
  refine ⟨fun s => ?_, ?_, fun e hdatabases hincludes => ?_⟩
  · rw [join_twice ha hb hc, join_of_joined ha hb hc, joined_assoc hb hc]
  · simp only [join_twice ha hb hc, exists_and_left, exists_eq, and_true]
  · rw [gives_join_iff, hdatabases, hincludes]
    refine ⟨a.databases, gives_forEach_nil.mpr rfl, ?_⟩
    cases a
    rw [List.append_nil]

/-- Sales are in all three schemas, and the stock is in two of them. -/
theorem join_associative_trade :
    let a := ofNames [("sales", ["order"])]
    let b := ofNames [("stock", ["item"]), ("sales", ["customer", "offer"])]
    let c := ofNames [("person", []), ("sales", ["invoice"]), ("stock", ["shelf"])]
    a.Distinct ∧ b.Distinct ∧ c.Distinct ∧ (a.Apart b ∧ a.Apart c ∧ b.Apart c) ∧
      ∃ s, (∃ bc, (join c).Gives b () bc ∧ (join bc).Gives a () s) ∧
        s.databases.map (fun d => (d.name, d.tableNames)) =
          [("sales", ["order", "customer", "offer", "invoice"]), ("stock", ["item", "shelf"]), ("person", [])] := by
  intro a b c
  have ha : a.Distinct := ⟨by decide, by decide⟩
  have hb : b.Distinct := ⟨by decide, by decide⟩
  have hc : c.Distinct := ⟨by decide, by decide⟩
  obtain ⟨hgroupings, happart, -⟩ := join_associative ha hb hc
  have hab : (join b).Gives a () (join b a).state := ⟨by decide +kernel, rfl⟩
  have habc : (join c).Gives (join b a).state () (join c (join b a).state).state := ⟨by decide +kernel, rfl⟩
  exact ⟨ha, hb, hc, happart.mp ⟨_, _, hab, habc⟩, _, (hgroupings _).mp ⟨_, hab, habc⟩, by decide +kernel⟩

end Schema

end Schemata
