import Schemata.Proofs.Domains
import Schemata.Proofs.RecordEdits

/-!
# Inlining domains in schema trees

In a tree, a domain is inlined where the column's `domain` is taken out and what the column does not set itself is
copied from the declaration of the domain. The tree that is left declares the columns with their domains inlined
(`ColumnDecl.inline`), so it is built into the same schema.
-/

namespace Schemata

open Shape

/-! ### Edits of the tree -/

/-- What column `c` takes over from domain `m`, as fields of its record. A default is copied where the column has
    neither a value nor an expression of its own. -/
def ColumnDecl.copied (c : ColumnDecl) (m : DomainDecl) : List (String × Json) :=
  (if c.type.isNone then [("type", .str m.type)] else []) ++
  (if c.sqlType.isNone then m.sqlType.toList.map fun s => ("sqlType", .str s) else []) ++
  (if c.size.isNone then m.size.toList.map fun n => ("size", .num (.int n)) else []) ++
  (if c.scale.isNone then m.scale.toList.map fun n => ("scale", .num (.int n)) else []) ++
  (if !c.hasDefault then m.defaultValue.toList.map fun j => ("defaultValue", j) else []) ++
  (if !c.hasDefault then m.defaultExpr.toList.map fun s => ("defaultExpr", .str s) else [])

/-- A column is left as it is, or the domain that it names is inlined. -/
inductive ColumnDecl.Inlined (ms : List DomainDecl) : Json → Json → Prop where
  | same (j : Json) : Inlined ms j j
  | inline {j bare j' : Json} {c : ColumnDecl} {m : DomainDecl} (hj : record.shape j = .ok c) (hm : m ∈ ms)
      (hc : c.domain = some m.name) (drop : record.Drops "domain" j bare) (copy : record.SetsAll (c.copied m) bare j') :
      Inlined ms j j'

/-- Domains are inlined in any columns of a table. -/
inductive TableDecl.Inlined (ms : List DomainDecl) : Json → Json → Prop where
  | same (j : Json) : Inlined ms j j
  | columns {old new j j' : Json} (h : record.Replaces "columns" old new j j')
      (columns : Itemwise (ColumnDecl.Inlined ms) old new) : Inlined ms j j'

/-- Domains are inlined in any columns of any tables of a schema. -/
inductive SchemaDecl.Inlined : Json → Json → Prop where
  | same (j : Json) : Inlined j j
  | tables {old new j j' : Json} {decl : SchemaDecl} (hj : record.shape j = .ok decl)
      (h : record.Replaces "tables" old new j j') (tables : Itemwise (TableDecl.Inlined decl.domains) old new) :
      Inlined j j'

/-! ### Parts of the records -/

theorem map_bind_pure {ε α β γ : Type} (x : Except ε α) (f : α → β) (g : β → γ) :
    (x >>= fun a => pure (f a)).map g = x >>= fun a => pure (g (f a)) := by
  cases x <;> rfl

namespace ColumnDecl

def typePart : record.Part (Option String) where
  name := "type"
  read := nullable text
  get := (·.type)
  set type c := { c with type := type }
  put_other other h j c type := by
    simp only [record]
    -- The field itself is excluded; each other one reads its value first and then changes another part.
    split <;> first | exact absurd rfl h | rfl | exact map_bind_pure ..

def sqlTypePart : record.Part (Option String) where
  name := "sqlType"
  read := nullable text
  get := (·.sqlType)
  set sqlType c := { c with sqlType := sqlType }
  put_other other h j c sqlType := by
    simp only [record]
    split <;> first | exact absurd rfl h | rfl | exact map_bind_pure ..

def sizePart : record.Part (Option Nat) where
  name := "size"
  read := nullable word32
  get := (·.size)
  set size c := { c with size := size }
  put_other other h j c size := by
    simp only [record]
    split <;> first | exact absurd rfl h | rfl | exact map_bind_pure ..

def scalePart : record.Part (Option Nat) where
  name := "scale"
  read := nullable word32
  get := (·.scale)
  set scale c := { c with scale := scale }
  put_other other h j c scale := by
    simp only [record]
    split <;> first | exact absurd rfl h | rfl | exact map_bind_pure ..

def valuePart : record.Part (Option Json) where
  name := "defaultValue"
  read := nullable any
  get := (·.defaultValue)
  set defaultValue c := { c with defaultValue := defaultValue }
  put_other other h j c defaultValue := by
    simp only [record]
    split <;> first | exact absurd rfl h | rfl | exact map_bind_pure ..

def exprPart : record.Part (Option String) where
  name := "defaultExpr"
  read := nullable text
  get := (·.defaultExpr)
  set defaultExpr c := { c with defaultExpr := defaultExpr }
  put_other other h j c defaultExpr := by
    simp only [record]
    split <;> first | exact absurd rfl h | rfl | exact map_bind_pure ..

def domainPart : record.Part (Option String) where
  name := "domain"
  read := nullable text
  get := (·.domain)
  set domain c := { c with domain := domain }
  put_other other h j c domain := by
    simp only [record]
    split <;> first | exact absurd rfl h | rfl | exact map_bind_pure ..

theorem nodup_fields : (record.fields.map (·.name)).Nodup := by decide

end ColumnDecl

namespace TableDecl

def columnsPart : record.Part (List ColumnDecl) where
  name := "columns"
  read := list ColumnDecl.record.shape
  get := (·.columns)
  set columns t := { t with columns := columns }
  put_other other h j t columns := by
    simp only [record]
    split <;> first | exact absurd rfl h | rfl | exact map_bind_pure ..

theorem nodup_fields : (record.fields.map (·.name)).Nodup := by decide

end TableDecl

namespace SchemaDecl

def domainsPart : record.Part (List DomainDecl) where
  name := "domains"
  read := list DomainDecl.record.shape
  get := (·.domains)
  set domains s := { s with domains := domains }
  put_other other h j s domains := by
    simp only [record]
    split <;> first | exact absurd rfl h | rfl | exact map_bind_pure ..

def tablesPart : record.Part (List TableDecl) where
  name := "tables"
  read := list TableDecl.record.shape
  get := (·.tables)
  set tables s := { s with tables := tables }
  put_other other h j s tables := by
    simp only [record]
    split <;> first | exact absurd rfl h | rfl | exact map_bind_pure ..

theorem nodup_fields : (record.fields.map (·.name)).Nodup := by decide

end SchemaDecl

/-! ### Domains that are read -/

/-- Its sizes are words of 32 bits and its default is not null, so that what is copied from the domain is read as it
    was. -/
structure DomainDecl.Readable (m : DomainDecl) : Prop where
  size : ∀ n ∈ m.size, nullable word32 (.num (.int n)) = .ok (some n)
  scale : ∀ n ∈ m.scale, nullable word32 (.num (.int n)) = .ok (some n)
  defaultValue : ∀ j ∈ m.defaultValue, nullable any j = .ok (some j)

theorem Shape.word32_of_nullable {j : Json} {size : Option Nat} (h : nullable word32 j = .ok size) :
    ∀ n ∈ size, nullable word32 (.num (.int n)) = .ok (some n) := by
  rintro n rfl
  cases j with
  | null => cases h
  | num m =>
    cases m with
    | double x => cases h
    | int z =>
      have hword : (word32 (.num (.int z))).map some = .ok (some n) := h
      by_cases hz : 0 ≤ z ∧ z < Nat.pow 2 32
      · simp only [word32, if_pos hz] at hword
        obtain rfl := Option.some.inj (Except.ok.inj hword)
        rwa [Int.toNat_of_nonneg hz.1]
      · simp only [word32, if_neg hz] at hword
        cases hword
  | bool | str | arr | obj => cases h

theorem Shape.any_of_nullable {j : Json} {value : Option Json} (h : nullable any j = .ok value) :
    ∀ v ∈ value, nullable any v = .ok (some v) := by
  rintro v rfl
  cases j with
  | null => cases h
  | bool | num | str | arr | obj =>
    obtain rfl := Option.some.inj (Except.ok.inj h)
    rfl

theorem Shape.exists_of_mem_list {α : Type} {s : Shape α} {j : Json} {as : List α} {a : α} (h : list s j = .ok as)
    (ha : a ∈ as) : ∃ x, s x = .ok a := by
  cases j with
  | arr xs =>
    replace h : xs.mapM s = .ok as := h
    induction xs generalizing as with
    | nil =>
      obtain rfl := pure_eq_ok.mp h
      cases ha
    | cons x xs ih =>
      simp only [List.mapM_cons, bind_eq_ok, pure_eq_ok] at h
      obtain ⟨b, hb, bs, hbs, rfl⟩ := h
      rcases List.mem_cons.mp ha with rfl | ha
      · exact ⟨x, hb⟩
      · exact ih ha hbs
  | null | bool | num | str | obj => cases h

theorem DomainDecl.readable_of_shape {j : Json} {m : DomainDecl} (h : record.shape j = .ok m) : m.Readable := by
  have hblank : record.blank.Readable := ⟨fun _ => nofun, fun _ => nofun, fun _ => nofun⟩
  refine RecordKind.shape_keeps (by decide) hblank (fun name j m m' hput hm => ?_) h
  simp only [record] at hput
  split at hput
  all_goals try (obtain ⟨x, hx, hput⟩ := bind_eq_ok.mp hput)
  all_goals obtain rfl := pure_eq_ok.mp hput
  · exact ⟨hm.size, hm.scale, hm.defaultValue⟩
  · exact ⟨hm.size, hm.scale, hm.defaultValue⟩
  · exact ⟨hm.size, hm.scale, hm.defaultValue⟩
  · exact ⟨word32_of_nullable hx, hm.scale, hm.defaultValue⟩
  · exact ⟨hm.size, word32_of_nullable hx, hm.defaultValue⟩
  · exact ⟨hm.size, hm.scale, any_of_nullable hx⟩
  · exact ⟨hm.size, hm.scale, hm.defaultValue⟩
  · exact hm

theorem SchemaDecl.readable_domains {j : Json} {s : SchemaDecl} (h : record.shape j = .ok s) :
    ∀ m ∈ s.domains, m.Readable := by
  refine domainsPart.get_keeps (I := fun ms => ∀ m ∈ ms, m.Readable) nodup_fields nofun (fun j ms hms m hm => ?_) h
  obtain ⟨jm, hjm⟩ := exists_of_mem_list hms hm
  exact DomainDecl.readable_of_shape hjm

/-! ### What is read from the edited tree -/

namespace ColumnDecl

variable {ms : List DomainDecl} {c : ColumnDecl} {m : DomainDecl} {j bare j' : Json}

/-- The copied fields fill in what the column does not set itself. -/
theorem shape_copied (hm : m.Readable) (hj : record.shape bare = .ok { c with domain := none })
    (hcopy : record.SetsAll (c.copied m) bare j') : record.shape j' = .ok (c.inline m) := by
  simp only [copied, RecordKind.setsAll_append] at hcopy
  obtain ⟨j₅, ⟨j₄, ⟨j₃, ⟨j₂, ⟨j₁, htype, hsqlType⟩, hsize⟩, hscale⟩, hvalue⟩, hexpr⟩ := hcopy
  have hroom : (!c.hasDefault) = true → c.defaultValue = none ∧ c.defaultExpr = none := by
    cases hv : c.defaultValue <;> cases he : c.defaultExpr <;> simp [hasDefault, hv, he]
  have hsizes : ∀ n ∈ m.size, sizePart.read (.num (.int n)) = .ok (some n) := by simpa only [sizePart] using hm.size
  have hscales : ∀ n ∈ m.scale, scalePart.read (.num (.int n)) = .ok (some n) := by
    simpa only [scalePart] using hm.scale
  have hnone {β : Type} {own : Option β} : own.isNone = true → own = none := Option.isNone_iff_eq_none.mp
  have hor {β : Type} (own m : Option β) : (if own.isNone then m else own) = own.or m := by cases own <;> rfl
  have hif {β : Type} (own m : β) : (if !c.hasDefault then m else own) = if c.hasDefault then own else m := by
    cases c.hasDefault <;> rfl
  -- The fields are set in the order of the list, and each one finds its part as the ones before it found it.
  have h₁ := typePart.shape_taken (m := some m.type) nodup_fields hj htype (fun _ _ => rfl) hnone (hor _ _)
  have h₂ := sqlTypePart.shape_taken nodup_fields h₁ hsqlType (fun _ _ => rfl) hnone (hor _ _)
  have h₃ := sizePart.shape_taken nodup_fields h₂ hsize hsizes hnone (hor _ _)
  have h₄ := scalePart.shape_taken nodup_fields h₃ hscale hscales hnone (hor _ _)
  have h₅ := valuePart.shape_taken nodup_fields h₄ hvalue hm.defaultValue (fun h => (hroom h).1) (hif _ _)
  have h₆ := exprPart.shape_taken nodup_fields h₅ hexpr (fun _ _ => rfl) (fun h => (hroom h).2) (hif _ _)
  exact h₆

theorem carries_inlined (hms : ∀ m ∈ ms, m.Readable) : record.shape.Carries (Inlined ms) (Inlines ms) := by
  intro j j' c hR hc
  cases hR with
  | same => exact ⟨c, hc, .inl rfl⟩
  | inline hj hm hdomain hdrop hcopy =>
    rename_i bare c' m
    obtain rfl := Except.ok.inj (hc.symm.trans hj)
    have hbare := domainPart.shape_dropped nodup_fields hc hdrop rfl (by decide)
    exact ⟨c.inline m, shape_copied (hms m hm) hbare hcopy, .inr ⟨m, hm, hdomain, rfl⟩⟩

end ColumnDecl

theorem TableDecl.carries_inlined {ms : List DomainDecl} (hms : ∀ m ∈ ms, m.Readable) :
    record.shape.Carries (Inlined ms) (Inlines ms) := by
  intro j j' t hR ht
  cases hR with
  | same => exact ⟨t, ht, .refl ms t⟩
  | columns hedit hcolumns =>
    have hcs := (ColumnDecl.carries_inlined hms).list fun _ => .inl rfl
    obtain ⟨cs, hcs, hinlines⟩ := columnsPart.carries nodup_fields hcs hedit hcolumns ht
    exact ⟨_, hcs, cs, hinlines, rfl⟩

theorem SchemaDecl.carries_inlined : record.shape.Carries Inlined Inlines := by
  intro j j' s hR hs
  cases hR with
  | same => exact ⟨s, hs, .refl s⟩
  | tables hj hedit htables =>
    obtain rfl := Except.ok.inj (hs.symm.trans hj)
    have hts := (TableDecl.carries_inlined (readable_domains hs)).list fun t => .refl s.domains t
    obtain ⟨ts, hts, hinlines⟩ := tablesPart.carries nodup_fields hts hedit htables hs
    exact ⟨_, hts, ts, hinlines, rfl⟩

/-! ### Builds -/

/-- A library where domains are inlined in the files. -/
structure Library.Inlined (l l' : Library) : Prop where
  depth : l'.depth = l.depth
  files : ∀ p, l'.load p = l.load p ∨ ∃ j j', l.load p = .ok j ∧ l'.load p = .ok j' ∧ SchemaDecl.Inlined j j'

theorem Library.Inlined.refl (l : Library) : l.Inlined l where
  depth := rfl
  files _ := .inl rfl

theorem Library.Inlined.inlines {l l' : Library} (h : l.Inlined l') : l.Inlines l' := by
  intro p
  obtain hsame | ⟨j, j', hj, hj', hinlined⟩ := h.files p
  · rw [loadDecl, loadDecl, hsame]
    exact .inl rfl
  · cases hdecl : SchemaDecl.record.shape j with
    | ok decl =>
      obtain ⟨decl', hdecl', hinlines⟩ := SchemaDecl.carries_inlined hinlined hdecl
      exact .inr ⟨decl, decl', by simp only [loadDecl, hj, hdecl, Except.mapError],
        by simp only [loadDecl, hj', hdecl', Except.mapError], hinlines⟩
    | error e =>
      cases hinlined with
      | same =>
        rw [loadDecl, loadDecl, hj, hj']
        exact .inl rfl
      | tables hj _ _ => cases hj.symm.trans hdecl

/-- To use a domain is to inline it: the same is built from a tree where domains are inlined in any columns, also
    where they are inlined in the files that it includes. -/
theorem SchemaDecl.Inlined.builds_same {r : Registry} {l l' : Library} {start : Option Path} {j j' : Json}
    (h : SchemaDecl.Inlined j j') (hl : l.Inlined l') : Schema.build r l' start j' = Schema.build r l start j := by
  cases hdecl : SchemaDecl.record.shape j with
  | ok decl =>
    obtain ⟨decl', hdecl', hinlines⟩ := carries_inlined h hdecl
    exact Schema.build_of_inlines hl.inlines hl.depth hdecl hdecl' hinlines
  | error e =>
    cases h with
    | same => simp only [Schema.build, hdecl, Except.mapError, Change.ofExcept_error_bind]
    | tables hj _ _ => cases hj.symm.trans hdecl

section Example
open RecordKind

/-- A store with two domains. Of its three columns that use one, the first leaves all to the domain, the second has a
    size of its own and a null for its default, and the third is an array with a default of its own. -/
def domainStore : Json :=
  .obj [("name", .str "store"),
    ("domains", .arr [.obj [("name", .str "isbn"), ("type", .str "CHAR"), ("size", .num (.int 13)),
        ("defaultValue", .str "none")],
      .arr [.str "price", .str "decimal", .null, .num (.int 10), .num (.int 2), .null, .str "zero()"]]),
    ("tables", .arr [.obj [("name", .str "book"), ("columns", .arr [
      .obj [("name", .str "isbn"), ("domain", .str "isbn")],
      .obj [("name", .str "ean"), ("domain", .str "isbn"), ("size", .num (.int 14)), ("defaultValue", .null)],
      .arr [.str "price", .null, .null, .null, .null, .null, .null, .null, .num (.int 0), .null, .str "price"],
      .obj [("name", .str "stock"), ("type", .str "int")]])]])]

/-- The same store with the domains inlined in all three columns. -/
def inlinedStore : Json :=
  .obj [("name", .str "store"),
    ("domains", .arr [.obj [("name", .str "isbn"), ("type", .str "CHAR"), ("size", .num (.int 13)),
        ("defaultValue", .str "none")],
      .arr [.str "price", .str "decimal", .null, .num (.int 10), .num (.int 2), .null, .str "zero()"]]),
    ("tables", .arr [.obj [("name", .str "book"), ("columns", .arr [
      .obj [("name", .str "isbn"), ("type", .str "CHAR"), ("size", .num (.int 13)), ("defaultValue", .str "none")],
      .obj [("type", .str "CHAR"), ("name", .str "ean"), ("size", .num (.int 14)), ("defaultValue", .str "none")],
      .arr [.str "price", .null, .null, .null, .str "decimal", .null, .num (.int 10), .num (.int 2), .num (.int 0),
        .null],
      .obj [("name", .str "stock"), ("type", .str "int")]])]])]

def isbnDomain : DomainDecl where
  name := "isbn"
  type := "CHAR"
  size := some 13
  defaultValue := some (.str "none")

def priceDomain : DomainDecl where
  name := "price"
  type := "decimal"
  size := some 10
  scale := some 2
  defaultExpr := some "zero()"

theorem inlined_domainStore : SchemaDecl.Inlined domainStore inlinedStore := by
  have hisbn : ColumnDecl.Inlined [isbnDomain, priceDomain] (.obj [("name", .str "isbn"), ("domain", .str "isbn")])
      (.obj [("name", .str "isbn"), ("type", .str "CHAR"), ("size", .num (.int 13)),
        ("defaultValue", .str "none")]) := by
    refine .inline rfl (List.mem_cons_self (a := isbnDomain)) rfl (.member [("name", .str "isbn")] [] "domain" _ rfl) ?_
    refine .cons (.anew [("name", .str "isbn")] [] rfl (by decide)) ?_
    refine .cons (.anew [("name", .str "isbn"), ("type", .str "CHAR")] [] rfl (by decide)) ?_
    refine .cons (.anew [("name", .str "isbn"), ("type", .str "CHAR"), ("size", .num (.int 13))] [] rfl (by decide)) ?_
    exact .nil _
  have hean : ColumnDecl.Inlined [isbnDomain, priceDomain]
      (.obj [("name", .str "ean"), ("domain", .str "isbn"), ("size", .num (.int 14)), ("defaultValue", .null)])
      (.obj [("type", .str "CHAR"), ("name", .str "ean"), ("size", .num (.int 14)),
        ("defaultValue", .str "none")]) := by
    refine .inline rfl (List.mem_cons_self (a := isbnDomain)) rfl
      (.member [("name", .str "ean")] [("size", .num (.int 14)), ("defaultValue", .null)] "domain" _ rfl) ?_
    refine .cons
      (.anew [] [("name", .str "ean"), ("size", .num (.int 14)), ("defaultValue", .null)] rfl (by decide)) ?_
    refine .cons (.inPlace (.member
      [("type", .str "CHAR"), ("name", .str "ean"), ("size", .num (.int 14))] [] "defaultValue" rfl)) ?_
    exact .nil _
  have hprice : ColumnDecl.Inlined [isbnDomain, priceDomain]
      (.arr [.str "price", .null, .null, .null, .null, .null, .null, .null, .num (.int 0), .null, .str "price"])
      (.arr [.str "price", .null, .null, .null, .str "decimal", .null, .num (.int 10), .num (.int 2), .num (.int 0),
        .null]) := by
    refine .inline rfl (List.mem_cons_of_mem isbnDomain (List.mem_singleton_self priceDomain)) rfl
      (.last [.str "price", .null, .null, .null, .null, .null, .null, .null, .num (.int 0), .null] _ rfl) ?_
    refine .cons (.inPlace
      (.item [.str "price", .null, .null, .null] [.null, .null, .null, .num (.int 0), .null] rfl)) ?_
    refine .cons (.inPlace
      (.item [.str "price", .null, .null, .null, .str "decimal", .null] [.null, .num (.int 0), .null] rfl)) ?_
    refine .cons (.inPlace
      (.item [.str "price", .null, .null, .null, .str "decimal", .null, .num (.int 10)] [.num (.int 0), .null] rfl)) ?_
    exact .nil _
  refine .tables rfl (.member [_, _] [] "tables" rfl) (.items (.cons ?_ .nil))
  refine .columns (.member [_] [] "columns" rfl) (.items ?_)
  exact .cons hisbn (.cons hean (.cons hprice (.cons (.same _) .nil)))

/-- The two stores are built into the same schema, whose columns have what they set and what the domains set. -/
theorem build_domainStore :
    SchemaDecl.Inlined domainStore inlinedStore ∧
      Schema.build .builtin .empty none inlinedStore = Schema.build .builtin .empty none domainStore ∧
      (Schema.build .builtin .empty none domainStore ()).result.toOption.map (fun s => s.databases.map fun d =>
        d.tables.map fun t => t.columns.map fun c => (c.name, c.domain)) =
        some [[[("isbn", ⟨none, .char, none, some 13, none, some (.value "none")⟩),
          ("ean", ⟨none, .char, none, some 14, none, some (.value "none")⟩),
          ("price", ⟨none, .decimal, none, some 10, some 2, some (.value "0")⟩),
          ("stock", ⟨none, .integer, none, none, none, none⟩)]]] :=
  ⟨inlined_domainStore, inlined_domainStore.builds_same (.refl _), by decide +kernel⟩

end Example

end Schemata
