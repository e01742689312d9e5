import Schemata.Proofs.Acyclic
import Schemata.Proofs.Inlining

/-!
# Trees without domains

From any schema tree, edits lead to one where each domain is inlined that a column names and the schema declares
(`SchemaDecl.exists_inlined`). Where a schema is built from the tree, its columns name no other domains, so they are
all left without one, and the same schema is built (`SchemaDecl.exists_domainFree`).
-/

namespace Schemata

variable {α β : Type}

/-! ### Edits that can be made -/

/-- An array has an item for the field at position `n`. An object has room for all fields. -/
def Json.HasRoom (n : Nat) : Json → Prop
  | .obj _ => True
  | .arr xs => n < xs.length
  | _ => False

theorem Json.HasRoom.mono {m n : Nat} {j : Json} (h : j.HasRoom n) (hmn : m ≤ n) : j.HasRoom m := by
  cases j with
  | obj => trivial
  | arr xs => exact Nat.lt_of_le_of_lt hmn h
  | null | bool | num | str => cases h

namespace RecordKind

variable {k : RecordKind α} {name : String} {n : Nat} {j : Json} {es : List (String × Json)}

theorem hasRoom_of_mem_names (hk : (k.fields.map (·.name)).Nodup) (h : name ∈ k.names j)
    (hn : (k.fields[n]?).map (·.name) = some name) : j.HasRoom n := by
  cases j with
  | obj ms => trivial
  | arr xs =>
    obtain ⟨i, hi, hfield⟩ := mem_names_arr.mp h
    rw [← List.getElem?_map] at hn hfield
    have hlt := (List.getElem?_eq_some_iff.mp hfield).1
    obtain rfl := (List.getElem?_inj hlt hk).mp (hfield.trans hn.symm)
    exact hi
  | null | bool | num | str => cases h

/-- A field that is set may get any other value. -/
theorem exists_replaces (h : name ∈ k.names j) :
    ∃ old, ∀ new, ∃ j', k.Replaces name old new j j' ∧ ∀ n, j.HasRoom n → j'.HasRoom n := by
  cases j with
  | obj ms =>
    obtain ⟨e, he, rfl⟩ := List.mem_map.mp h
    obtain ⟨m, hm, hname⟩ := List.mem_filterMap.mp he
    obtain ⟨field, hfield, rfl⟩ := Option.map_eq_some_iff.mp hname
    obtain ⟨before, after, rfl⟩ := List.append_of_mem hm
    exact ⟨m.2, fun new => ⟨_, .member before after m.1 hfield, fun _ _ => trivial⟩⟩
  | arr xs =>
    obtain ⟨n, hn, hfield⟩ := mem_names_arr.mp h
    have hlength : (xs.take n).length = n := List.length_take_of_le (Nat.le_of_lt hn)
    refine ⟨xs[n], fun new => ⟨.arr (xs.set n new), ?_, fun i hi => ?_⟩⟩
    · have hitem : k.Replaces name xs[n] new (.arr (xs.take n ++ xs[n] :: xs.drop (n + 1)))
          (.arr (xs.take n ++ new :: xs.drop (n + 1))) := .item _ _ (hlength.symm ▸ hfield)
      rwa [← List.drop_eq_getElem_cons hn, List.take_append_drop, ← List.set_eq_take_cons_drop new hn] at hitem
    · exact Nat.lt_of_lt_of_eq hi List.length_set.symm
  | null | bool | num | str => cases h

/-- A field is set where there is room for it. -/
theorem exists_sets (hname : k.fieldName? name = some name) (hn : (k.fields[n]?).map (·.name) = some name)
    (hj : j.HasRoom n) (v : Json) : ∃ j', k.Sets name v j j' ∧ ∀ n, j.HasRoom n → j'.HasRoom n := by
  by_cases hset : name ∈ k.names j
  · obtain ⟨old, hreplaces⟩ := exists_replaces hset
    obtain ⟨j', hj', hkept⟩ := hreplaces v
    exact ⟨j', .inPlace hj', hkept⟩
  · cases j with
    | obj ms =>
      exact ⟨_, .anew [] ms hname hset, fun _ _ => trivial⟩
    | arr xs => exact absurd (mem_names_arr.mpr ⟨n, hj, hn⟩) hset
    | null | bool | num | str => cases hj

theorem exists_setsAll (h : ∀ e ∈ es, k.fieldName? e.1 = some e.1 ∧
    ∃ n, (k.fields[n]?).map (·.name) = some e.1 ∧ j.HasRoom n) : ∃ j', k.SetsAll es j j' := by
  induction es generalizing j with
  | nil => exact ⟨j, .nil j⟩
  | cons e es ih =>
    obtain ⟨⟨hname, n, hn, hroom⟩, hrest⟩ := List.forall_mem_cons.mp h
    obtain ⟨j₁, hset, hkept⟩ := exists_sets hname hn hroom e.2
    obtain ⟨j', hall⟩ := ih fun e' he' =>
      let ⟨hname, n, hn, hroom⟩ := hrest e' he'
      ⟨hname, n, hn, hkept n hroom⟩
    exact ⟨j', .cons hset hall⟩

section Part
variable {p : k.Part β} {a : α} (hk : (k.fields.map (·.name)).Nodup)
include hk

/-- A part that is not as in the record of defaults was set. -/
theorem Part.mem_names (h : k.shape j = .ok a) (ha : p.get a ≠ p.get k.blank) : p.name ∈ k.names j := by
  by_contra hunset
  refine ha (putAll_keeps (I := fun a => p.get a = p.get k.blank) ?_ ((shape_eq_ok hk).mp h).puts rfl)
  intro e he a b hput hget
  have hother : e.1 ≠ p.name := fun hname => hunset (hname ▸ List.mem_map_of_mem he)
  exact (Part.get_put_other hother hput).trans hget

/-- Where each value of a part can be edited by `R` into one that `Q` holds of, so can the record, unless it has the
    default there. -/
theorem Part.exists_edit {R : Json → Json → Prop} {Q : β → Prop} (h : k.shape j = .ok a)
    (hedit : ∀ x b, p.read x = .ok b → ∃ y c, R x y ∧ p.read y = .ok c ∧ Q c) (ha : p.get a ≠ p.get k.blank) :
    ∃ old new j' b, R old new ∧ k.Replaces p.name old new j j' ∧ k.shape j' = .ok (p.set b a) ∧ Q b := by
  obtain ⟨old, hreplaces⟩ := exists_replaces (Part.mem_names hk h ha)
  obtain ⟨_, hany, -⟩ := hreplaces .null
  obtain ⟨new, b, hR, hb, hQ⟩ := hedit old (p.get a) (Part.read_old hk h hany)
  obtain ⟨j', hj', -⟩ := hreplaces new
  exact ⟨old, new, j', b, hR, hj', Part.shape_replaced hk h hj' hb, hQ⟩

end Part

end RecordKind

theorem Shape.exists_itemwise {s : Shape α} {R : Json → Json → Prop} {Q : α → Prop} {j : Json} {as : List α}
    (h : ∀ x a, s x = .ok a → ∃ y b, R x y ∧ s y = .ok b ∧ Q b) (has : list s j = .ok as) :
    ∃ j' bs, Itemwise R j j' ∧ list s j' = .ok bs ∧ ∀ b ∈ bs, Q b := by
  cases j with
  | arr xs =>
    replace has : xs.mapM s = .ok as := has
    suffices hitems : ∃ ys bs, List.Forall₂ R xs ys ∧ ys.mapM s = .ok bs ∧ ∀ b ∈ bs, Q b by
      obtain ⟨ys, bs, hR, hbs, hQ⟩ := hitems
      exact ⟨.arr ys, bs, .items hR, hbs, hQ⟩
    induction xs generalizing as with
    | nil => exact ⟨[], [], .nil, rfl, fun _ => nofun⟩
    | cons x xs ih =>
      simp only [List.mapM_cons, bind_eq_ok, pure_eq_ok] at has
      obtain ⟨a, ha, as, hrest, rfl⟩ := has
      obtain ⟨y, b, hR, hb, hQ⟩ := h x a ha
      obtain ⟨ys, bs, hRs, hbs, hQs⟩ := ih hrest
      refine ⟨y :: ys, b :: bs, .cons hR hRs, ?_, List.forall_mem_cons.mpr ⟨hQ, hQs⟩⟩
      simp only [List.mapM_cons, bind_eq_ok, pure_eq_ok]
      exact ⟨b, hb, bs, hbs, rfl⟩
  | null | bool | num | str | obj => cases has

/-! ### Schemas without domains -/

namespace ColumnDecl

variable {ms : List DomainDecl} {c : ColumnDecl} {m : DomainDecl} {j : Json}

/-- Each field that is copied stands before `domain`. -/
theorem field_copied {e : String × Json} (he : e ∈ c.copied m) :
    record.fieldName? e.1 = some e.1 ∧ ∃ n < 10, (record.fields[n]?).map (·.name) = some e.1 := by
  have hpiece {β : Type} {room : Bool} {name : String} {l : List β} {write : β → Json}
      (h : e ∈ if room then l.map fun b => (name, write b) else []) : e.1 = name := by
    split at h
    · obtain ⟨b, -, rfl⟩ := List.mem_map.mp h
      rfl
    · cases h
  simp only [copied, List.mem_append] at he
  rcases he with ((((he | he) | he) | he) | he) | he
  · have hname : e.1 = "type" := hpiece (l := [m.type]) he
    exact hname ▸ ⟨rfl, 4, by decide, rfl⟩
  · exact hpiece he ▸ ⟨rfl, 5, by decide, rfl⟩
  · exact hpiece he ▸ ⟨rfl, 6, by decide, rfl⟩
  · exact hpiece he ▸ ⟨rfl, 7, by decide, rfl⟩
  · exact hpiece he ▸ ⟨rfl, 8, by decide, rfl⟩
  · exact hpiece he ▸ ⟨rfl, 9, by decide, rfl⟩

/-- A column names no domain of the list. -/
def Free (ms : List DomainDecl) (c : ColumnDecl) : Prop :=
  ∀ m ∈ ms, c.domain ≠ some m.name

theorem exists_inlined (hms : ∀ m ∈ ms, m.Readable) (hj : record.shape j = .ok c) :
    ∃ j' c', Inlined ms j j' ∧ record.shape j' = .ok c' ∧ c'.Free ms := by
  by_cases hfree : c.Free ms
  · exact ⟨j, c, .same j, hj, hfree⟩
  · simp only [Free, not_forall, not_not] at hfree
    obtain ⟨m, hm, hc⟩ := hfree
    have hdomain : c.domain ≠ none := hc ▸ Option.some_ne_none m.name
    have hset : "domain" ∈ record.names j := domainPart.mem_names nodup_fields hj hdomain
    obtain ⟨old, hreplaces⟩ := RecordKind.exists_replaces hset
    obtain ⟨bare, hbare, hkept⟩ := hreplaces .null
    have hroom : bare.HasRoom 10 := hkept 10 (RecordKind.hasRoom_of_mem_names nodup_fields hset rfl)
    have hcopied : ∃ j', record.SetsAll (c.copied m) bare j' := RecordKind.exists_setsAll fun e he => by
      obtain ⟨hname, n, hn, hfield⟩ := field_copied he
      exact ⟨hname, n, hfield, hroom.mono (Nat.le_of_lt hn)⟩
    obtain ⟨j', hcopy⟩ := hcopied
    have hdrop : record.Drops "domain" j bare := .blank hbare
    have hshape := domainPart.shape_dropped nodup_fields hj hdrop rfl (by decide)
    exact ⟨j', c.inline m, .inline hj hm hc hdrop hcopy, shape_copied (hms m hm) hshape hcopy, fun _ _ => nofun⟩

end ColumnDecl

theorem TableDecl.exists_inlined {ms : List DomainDecl} {t : TableDecl} {j : Json} (hms : ∀ m ∈ ms, m.Readable)
    (hj : record.shape j = .ok t) :
    ∃ j' t', Inlined ms j j' ∧ record.shape j' = .ok t' ∧ ∀ c ∈ t'.columns, c.Free ms := by
  by_cases hcolumns : t.columns = []
  · exact ⟨j, t, .same j, hj, fun c hc => absurd (hcolumns ▸ hc) List.not_mem_nil⟩
  · obtain ⟨old, new, j', cs, hnew, hj', ht', hfree⟩ := columnsPart.exists_edit nodup_fields hj
      (fun _ _ => Shape.exists_itemwise fun _ _ => ColumnDecl.exists_inlined hms) hcolumns
    exact ⟨j', _, .columns hj' hnew, ht', hfree⟩

/-- Edits lead to a tree where no column names a domain that the schema declares. -/
theorem SchemaDecl.exists_inlined {s : SchemaDecl} {j : Json} (hj : record.shape j = .ok s) :
    ∃ j' s', Inlined j j' ∧ record.shape j' = .ok s' ∧ ∀ t ∈ s'.tables, ∀ c ∈ t.columns, c.Free s.domains := by
  by_cases htables : s.tables = []
  · exact ⟨j, s, .same j, hj, fun t ht => absurd (htables ▸ ht) List.not_mem_nil⟩
  · have hms := readable_domains hj
    obtain ⟨old, new, j', ts, hnew, hj', hs', hfree⟩ := tablesPart.exists_edit nodup_fields hj
      (fun _ _ => Shape.exists_itemwise fun _ _ => TableDecl.exists_inlined hms) htables
    exact ⟨j', _, .tables hj hj' hnew, hs', hfree⟩

/-! ### Domains that a build knows -/

theorem addDeclared_reads {σ : Type} {read : α → Except Error β} {add : σ → β → Except Error σ} {l : List α} {s t : σ}
    (h : addDeclared read add s l = .ok t) : ∀ a ∈ l, ∃ b, read a = .ok b := by
  induction l generalizing s with
  | nil => exact fun _ => nofun
  | cons a l ih =>
    obtain ⟨b, hb, h⟩ := bind_eq_ok.mp h
    obtain ⟨u, -, h⟩ := bind_eq_ok.mp h
    exact List.forall_mem_cons.mpr ⟨⟨b, hb⟩, ih h⟩

section Build
variable {r : Registry} {decl : SchemaDecl} {d e : Database} {referenceOnly : Bool}

theorem Database.declared_of_head (h : head decl = .ok d) :
    ∀ x ∈ d.domains, ∃ m ∈ decl.domains, x.name = some m.name := by
  obtain ⟨settings, -, h⟩ := bind_eq_ok.mp h
  refine addDeclared_keeps (I := fun d => ∀ x ∈ d.domains, ∃ m ∈ decl.domains, x.name = some m.name) ?_ h fun _ => nofun
  intro m hm built d e hbuilt hadd hd
  obtain ⟨_, -, -, rfl⟩ := addDomain_eq_ok.mp hadd
  exact List.forall_mem_append.mpr ⟨hd, List.forall_mem_singleton.mpr ⟨m, hm, name_ofDecl hbuilt⟩⟩

theorem Table.domain?_of_ofDecl {t : TableDecl} {built : Table} (h : ofDecl r d referenceOnly t = .ok built) :
    ∀ c ∈ t.columns, ∀ name, c.domain = some name → ∃ x, d.domain? name = some x := by
  simp only [ofDecl, bind_eq_ok] at h
  obtain ⟨_, -, u, hu, -⟩ := h
  intro c hc name hname
  obtain ⟨m, hm⟩ := addDeclared_reads hu c hc
  simp only [Column.ofDecl, columnDomain, bind_eq_ok] at hm
  obtain ⟨_, ⟨base, hbase, -⟩, -⟩ := hm
  rw [baseDomain, hname] at hbase
  cases hfound : d.domain? name with
  | some x => exact ⟨x, rfl⟩
  | none =>
    simp only [hfound] at hbase
    cases hbase

theorem Database.domain?_of_addDeclaredTables {ts : List TableDecl}
    (h : (addDeclaredTables r referenceOnly ts).Gives d () e) :
    ∀ t ∈ ts, ∀ c ∈ t.columns, ∀ name, c.domain = some name → ∃ x, d.domain? name = some x := by
  replace h := gives_addDeclaredTables h
  induction ts generalizing d with
  | nil => exact fun _ => nofun
  | cons t ts ih =>
    obtain ⟨f, hf, hts⟩ := Change.gives_forEach_cons.mp h
    obtain ⟨table, htable, hadd⟩ := gives_addDeclaredTable.mp hf
    obtain ⟨-, rfl⟩ := addTable_eq_ok.mp hadd
    have hrest := ih hts
    exact List.forall_mem_cons.mpr ⟨Table.domain?_of_ofDecl htable, hrest⟩

/-- The domains that columns name are declared, where a schema is built. -/
theorem Schema.declared_of_build {l : Library} {start : Option Path} {j : Json} {s : Schema}
    (h : (build r l start j ()).result = .ok s) (hj : SchemaDecl.record.shape j = .ok decl) :
    ∀ t ∈ decl.tables, ∀ c ∈ t.columns, ∀ name, c.domain = some name → ∃ m ∈ decl.domains, m.name = name := by
  obtain ⟨decl', v, hdecl, hgives⟩ := gives_build h
  obtain rfl := Except.ok.inj (hj.symm.trans hdecl)
  rw [buildNested_eq] at hgives
  obtain ⟨included, head, equipped, d, -, hhead, hequipped, htables, -⟩ := gives_buildDecl hgives
  intro t ht c hc name hname
  obtain ⟨x, hx⟩ := Database.domain?_of_addDeclaredTables htables t ht c hc name hname
  have hmem := List.mem_of_find?_eq_some hx
  rw [Database.domains_addSettings hequipped] at hmem
  obtain ⟨m, hm, hxm⟩ := Database.declared_of_head hhead x hmem
  have hxname : x.name = some name := by simpa using List.find?_some hx
  exact ⟨m, hm, Option.some.inj (hxm.symm.trans hxname)⟩

/-- A tree that can be built can be edited into one without domains in its columns, from which the same schema is
    built. -/
theorem SchemaDecl.exists_domainFree {l : Library} {start : Option Path} {j : Json} {s : Schema}
    (h : (Schema.build r l start j ()).result = .ok s) :
    ∃ j' decl', Inlined j j' ∧ record.shape j' = .ok decl' ∧ (∀ t ∈ decl'.tables, ∀ c ∈ t.columns, c.domain = none) ∧
      (Schema.build r l start j' ()).result = .ok s := by
  obtain ⟨decl, -, hj, -⟩ := Schema.gives_build h
  obtain ⟨j', decl', hinlined, hj', hfree⟩ := exists_inlined hj
  have hinlines : decl.Inlines decl' := by
    obtain ⟨other, hother, hinlines⟩ := carries_inlined hinlined hj
    rwa [Except.ok.inj (hj'.symm.trans hother)]
  have hdomains : decl'.domains = decl.domains := by
    obtain ⟨ts, -, rfl⟩ := hinlines
    rfl
  rw [← Schema.build_of_inlines (Library.Inlined.refl l).inlines rfl hj hj' hinlines] at h
  refine ⟨j', decl', hinlined, hj', fun t ht c hc => ?_, h⟩
  cases hname : c.domain with
  | none => rfl
  | some name =>
    obtain ⟨m, hm, rfl⟩ := Schema.declared_of_build h hj' t ht c hc name hname
    exact absurd hname (hfree t ht c hc m (hdomains ▸ hm))

end Build

end Schemata
