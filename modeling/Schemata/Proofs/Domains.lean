import Schemata.Proofs.Trail
import Schemata.Proofs.Declared

/-!
# The use of a domain

A column takes over from the domain that it names what it does not set itself. So the same schema is built where the
column sets this itself and names no domain (`ColumnDecl.inline`), at any columns of a schema and of the files that
it includes.
-/

namespace Schemata

open Change

/-! ### Inlining -/

namespace ColumnDecl

def hasDefault (c : ColumnDecl) : Bool :=
  c.defaultValue.isSome || c.defaultExpr.isSome

/-- The column with what it takes over from domain `m`, and without the name of the domain. -/
def inline (c : ColumnDecl) (m : DomainDecl) : ColumnDecl :=
  { c with
    domain := none
    type := c.type.or (some m.type)
    sqlType := c.sqlType.or m.sqlType
    size := c.size.or m.size
    scale := c.scale.or m.scale
    defaultValue := if c.hasDefault then c.defaultValue else m.defaultValue
    defaultExpr := if c.hasDefault then c.defaultExpr else m.defaultExpr }

/-- Column `c` is left as it is, or the domain that it names is inlined. -/
def Inlines (ms : List DomainDecl) (c c' : ColumnDecl) : Prop :=
  c' = c ∨ ∃ m ∈ ms, c.domain = some m.name ∧ c' = c.inline m

end ColumnDecl

def TableDecl.Inlines (ms : List DomainDecl) (t t' : TableDecl) : Prop :=
  ∃ cs, List.Forall₂ (ColumnDecl.Inlines ms) t.columns cs ∧ t' = { t with columns := cs }

def SchemaDecl.Inlines (s s' : SchemaDecl) : Prop :=
  ∃ ts, List.Forall₂ (TableDecl.Inlines s.domains) s.tables ts ∧ s' = { s with tables := ts }

theorem TableDecl.Inlines.refl (ms : List DomainDecl) (t : TableDecl) : TableDecl.Inlines ms t t :=
  ⟨t.columns, List.forall₂_same.mpr fun _ _ => .inl rfl, rfl⟩

theorem SchemaDecl.Inlines.refl (s : SchemaDecl) : s.Inlines s :=
  ⟨s.tables, List.forall₂_same.mpr fun t _ => TableDecl.Inlines.refl s.domains t, rfl⟩

/-! ### Declared domains -/

/-- Each of the declared domains is found by its name. -/
def Database.Knows (d : Database) (ms : List DomainDecl) : Prop :=
  ∀ m ∈ ms, ∃ built, Domain.ofDecl m = .ok built ∧ d.domain? m.name = some built

namespace Database

variable {r : Registry} {d e : Database} {ms : List DomainDecl}

theorem Knows.congr (h : d.Knows ms) (he : e.domains = d.domains) : e.Knows ms := by
  unfold Knows domain? at h ⊢
  rwa [he]

/-- A domain that is found is found after one more is added: names are not used twice. -/
theorem domain?_addDomain {m found : Domain} {name : String} (h : d.addDomain m = .ok e)
    (hfound : d.domain? name = some found) : e.domain? name = some found := by
  obtain ⟨_, -, -, rfl⟩ := addDomain_eq_ok.mp h
  unfold domain? at hfound ⊢
  rw [List.find?_append, hfound]
  rfl

theorem domain?_addDomain_self {m : Domain} {name : String} (h : d.addDomain m = .ok e) (hm : m.name = some name) :
    e.domain? name = some m := by
  obtain ⟨name', hname', hfree, rfl⟩ := addDomain_eq_ok.mp h
  obtain rfl := Option.some.inj (hm.symm.trans hname')
  unfold domain? at hfree ⊢
  rw [List.find?_append, hfree]
  simp [hm]

theorem name_ofDecl {m : DomainDecl} {built : Domain} (h : Domain.ofDecl m = .ok built) : built.name = some m.name := by
  simp only [Domain.ofDecl, bind_eq_ok, pure_eq_ok] at h
  obtain ⟨type, -, default, -, rfl⟩ := h
  rfl

theorem knows_addDomains (h : addDeclared Domain.ofDecl addDomain d ms = .ok e) : e.Knows ms := by
  induction ms generalizing d with
  | nil => exact fun _ hm => absurd hm List.not_mem_nil
  | cons m ms ih =>
    obtain ⟨built, hbuilt, h⟩ := bind_eq_ok.mp h
    obtain ⟨f, hf, h⟩ := bind_eq_ok.mp h
    have hfirst : f.domain? m.name = some built := domain?_addDomain_self hf (name_ofDecl hbuilt)
    have hkept : e.domain? m.name = some built :=
      addDeclared_keeps (I := fun d => d.domain? m.name = some built) (fun _ _ _ _ _ _ => domain?_addDomain) h hfirst
    exact List.forall_mem_cons.mpr ⟨⟨built, hbuilt, hkept⟩, ih h⟩

theorem knows_head {decl : SchemaDecl} (h : head decl = .ok d) : d.Knows decl.domains := by
  obtain ⟨settings, -, h⟩ := bind_eq_ok.mp h
  exact knows_addDomains h

theorem domains_addSettings {decl : SchemaDecl} (h : d.addSettings r decl = .ok e) : e.domains = d.domains := by
  refine addSettings_keeps (I := fun e => e.domains = d.domains) h ?_ (fun _ _ hd => hd) rfl
  intro b d e hadd hd
  obtain ⟨rfl, -⟩ := addBehavior_eq_ok hadd
  exact hd

end Database

/-! ### Columns -/

namespace Default

variable {owner other : DefaultOwner} {value : Option Json} {expr : Option String} {default : Option Default}

/-- A default that can be read is the same whoever owns it. -/
theorem ofDecl_owner (h : ofDecl owner value expr = .ok default) : ofDecl other value expr = .ok default := by
  cases value with
  | none => cases expr <;> exact h
  | some j =>
    cases expr with
    | some e => cases h
    | none =>
      simp only [ofDecl, readScalar] at h ⊢
      cases htext : j.scalarText? with
      | some text => simpa only [htext] using h
      | none =>
        rw [htext] at h
        cases h

/-- What is set is read as something. -/
theorem ofDecl_or (h : (value.isSome || expr.isSome) = true) :
    (ofDecl owner value expr).map (·.or default) = ofDecl owner value expr := by
  cases value with
  | none =>
    cases expr with
    | none => cases h
    | some e => rfl
  | some j =>
    cases expr with
    | some e => rfl
    | none =>
      simp only [ofDecl]
      cases readScalar j (.defaultNotScalar owner) <;> rfl

end Default

section Column
variable {d : Database} {table : String} {c c' : ColumnDecl} {m : DomainDecl} {ms : List DomainDecl}

theorem readColumnType_or {own : Option String} {inherited : String} {type : ColumnType}
    (h : readColumnType inherited = .ok type) :
    readOptional readColumnType (own.or (some inherited)) =
      (readOptional readColumnType own).map fun t => some (t.getD type) := by
  cases own with
  | none =>
    simp only [Option.none_or, readOptional, h]
    rfl
  | some s =>
    simp only [Option.some_or, readOptional]
    cases readColumnType s <;> rfl

theorem default_inline {default : Option Default} {owner other : DefaultOwner}
    (h : Default.ofDecl other m.defaultValue m.defaultExpr = .ok default) :
    Default.ofDecl owner (c.inline m).defaultValue (c.inline m).defaultExpr =
      (Default.ofDecl owner c.defaultValue c.defaultExpr).map (·.or default) := by
  cases hown : c.hasDefault with
  | true => simp only [ColumnDecl.inline, hown, if_true, Default.ofDecl_or hown]
  | false =>
    obtain ⟨hvalue, hexpr⟩ := Bool.or_eq_false_iff.mp hown
    rw [Option.isSome_eq_false_iff, Option.isNone_iff_eq_none] at hvalue hexpr
    simp only [ColumnDecl.inline, hown, Bool.false_eq_true, if_false, hvalue, hexpr, Default.ofDecl_owner h]
    rfl

/-- What a column takes over and what it sets itself make the same domain. -/
theorem columnDomain_inline (hd : d.Knows ms) (hm : m ∈ ms) (hc : c.domain = some m.name) :
    columnDomain d table (c.inline m) = columnDomain d table c := by
  obtain ⟨built, hbuilt, hfound⟩ := hd m hm
  simp only [Domain.ofDecl, bind_eq_ok, pure_eq_ok] at hbuilt
  obtain ⟨type, htype, default, hdefault, rfl⟩ := hbuilt
  have hbase : baseDomain d table c = .ok ⟨none, type, m.sqlType, m.size, m.scale, default⟩ := by
    rw [baseDomain, hc]
    simp only [hfound]
    rfl
  have hbare : baseDomain d table (c.inline m) = .ok {} := rfl
  have hname : (c.inline m).name = c.name := rfl
  have htypes : readOptional readColumnType (c.inline m).type = _ := readColumnType_or htype
  rw [columnDomain, columnDomain, hbase, hbare, htypes, hname, default_inline hdefault]
  cases readOptional readColumnType c.type with
  | error e => rfl
  | ok own =>
    cases Default.ofDecl (.column table c.name) c.defaultValue c.defaultExpr with
    | error e => rfl
    | ok ownDefault =>
      refine congrArg Except.ok ?_
      simp only [ColumnDecl.inline, Option.or_none, Option.getD_some]

theorem Column.ofDecl_inlines (hd : d.Knows ms) (h : ColumnDecl.Inlines ms c c') :
    Column.ofDecl d table c' = Column.ofDecl d table c := by
  obtain rfl | ⟨m, hm, hc, rfl⟩ := h
  · rfl
  · rw [Column.ofDecl, Column.ofDecl, columnDomain_inline hd hm hc]
    rfl

end Column

/-! ### Tables -/

theorem addDeclared_congr {α β σ : Type} {read : α → Except Error β} {add : σ → β → Except Error σ} {xs ys : List α}
    (h : List.Forall₂ (fun a b => read b = read a) xs ys) (s : σ) :
    addDeclared read add s ys = addDeclared read add s xs := by
  induction h generalizing s with
  | nil => rfl
  | cons hab _ ih => simp only [addDeclared, hab, ih]

section Tables
variable {r : Registry} {d : Database} {referenceOnly : Bool} {ms : List DomainDecl}

theorem Table.ofDecl_inlines {t t' : TableDecl} (hd : d.Knows ms) (h : TableDecl.Inlines ms t t') :
    Table.ofDecl r d referenceOnly t' = Table.ofDecl r d referenceOnly t := by
  obtain ⟨cs, hcs, rfl⟩ := h
  have hcolumns : ∀ table, addDeclared (Column.ofDecl d t.name) Table.addColumn table cs =
      addDeclared (Column.ofDecl d t.name) Table.addColumn table t.columns :=
    addDeclared_congr (hcs.imp fun _ _ => Column.ofDecl_inlines hd)
  simp only [Table.ofDecl, hcolumns]
  rfl

/-- The tables are built one after another, and none of them declares a domain. -/
theorem Database.addDeclaredTables_inlines {ts ts' : List TableDecl} (hd : d.Knows ms)
    (h : List.Forall₂ (TableDecl.Inlines ms) ts ts') :
    addDeclaredTables r referenceOnly ts' d = addDeclaredTables r referenceOnly ts d := by
  have heach : (forEach (addDeclaredTable r referenceOnly) ts).Agrees (fun _ => True)
      (forEach (addDeclaredTable r referenceOnly) ts') d := by
    induction h generalizing d with
    | nil => exact agrees_refl _
    | @cons t t' ts ts' ht _ ih =>
      have hfirst : addDeclaredTable r referenceOnly t' d = addDeclaredTable r referenceOnly t d := by
        have hbuilt : Table.ofDecl r d referenceOnly t' = Table.ofDecl r d referenceOnly t := Table.ofDecl_inlines hd ht
        refine Agrees.of_get (E := fun _ => True) ?_ fun _ _ => trivial
        rw [hbuilt]
        exact agrees_refl _
      refine Agrees.bind (fun _ => hfirst) fun _ e hgives => ih (hd.congr ?_)
      obtain ⟨table, -, hadd⟩ := gives_addDeclaredTable.mp hgives
      obtain ⟨-, rfl⟩ := addTable_eq_ok.mp hadd
      rfl
  exact heach.bind (fun _ _ _ => agrees_refl _) fun _ _ => trivial

end Tables

/-! ### Builds -/

theorem Change.ofExcept_ok_bind {ε σ α β : Type} (a : α) (f : α → Change ε σ β) :
    ofExcept (.ok a) >>= f = f a := rfl

theorem Change.ofExcept_error_bind {ε σ α β : Type} (e : ε) (f : α → Change ε σ β) :
    ofExcept (.error e) >>= f = fail e := rfl

section Builds
variable {r : Registry} {l l' : Library} {build build' : SchemaDecl → Path → Bool → Edit Visits Schema}
  {decl decl' : SchemaDecl}

theorem buildDecl_inlines (hinclude : ∀ location, buildInclude l' build' location = buildInclude l build location)
    (h : decl.Inlines decl') : buildDecl r l' build' decl' = buildDecl r l build decl := by
  obtain ⟨ts, hts, rfl⟩ := h
  funext location referenceOnly v
  refine Agrees.bind (E := fun _ => True) (agrees_refl _) (fun bare v hbare => ?_) fun _ _ => trivial
  have hknows : bare.Knows decl.domains := Database.knows_head (gives_ofExcept.mp hbare).1
  rw [hinclude]
  refine Agrees.bind (agrees_refl _) fun included v _ => Agrees.bind (agrees_refl _) fun head v hhead => ?_
  have hdomains := Database.domains_addSettings (gives_ofExcept.mp hhead).1
  exact (Agrees.starting fun _ => Database.addDeclaredTables_inlines (hknows.congr hdomains) hts).bind
    fun _ _ _ => agrees_refl _

/-- A file holds the same declaration in both libraries, or in `l'` one with domains inlined. -/
def Library.Inlines (l l' : Library) : Prop :=
  ∀ p, loadDecl l' p = loadDecl l p ∨
    ∃ decl decl', loadDecl l p = .ok decl ∧ loadDecl l' p = .ok decl' ∧ decl.Inlines decl'

theorem buildInclude_inlines (hl : l.Inlines l')
    (hbuild : ∀ decl decl' : SchemaDecl, decl.Inlines decl' → build' decl' = build decl) (location : Option Path) :
    buildInclude l' build' location = buildInclude l build location := by
  have hsame : build' = build := funext fun decl => hbuild decl decl (.refl decl)
  funext i
  refine bind_congr fun p => bind_congr fun v => ?_
  obtain hload | ⟨decl, decl', hdecl, hdecl', hinlines⟩ := hl p
  · rw [hload, hsame]
  · refine if_congr Iff.rfl rfl (if_congr Iff.rfl rfl (bind_congr fun _ => bind_congr fun _ => ?_))
    rw [hdecl, hdecl', ofExcept_ok_bind, ofExcept_ok_bind, hbuild decl decl' hinlines]

theorem buildNested_inlines (hl : l.Inlines l') (depth : Nat) (h : decl.Inlines decl') :
    buildNested r l' depth decl' = buildNested r l depth decl := by
  induction depth generalizing decl decl' with
  | zero => exact buildDecl_inlines (buildInclude_inlines hl fun _ _ _ => rfl) h
  | succ depth ih =>
    refine buildDecl_inlines (buildInclude_inlines hl fun decl decl' h => ?_) h
    funext p referenceOnly
    rw [ih h]

/-- Of a tree, only its declaration is built. -/
theorem Schema.build_of_inlines {start : Option Path} {j j' : Json} (hl : l.Inlines l') (hdepth : l'.depth = l.depth)
    (hj : SchemaDecl.record.shape j = .ok decl) (hj' : SchemaDecl.record.shape j' = .ok decl')
    (h : decl.Inlines decl') : Schema.build r l' start j' = Schema.build r l start j := by
  have hnested := buildNested_inlines (r := r) hl (l.depth + 1) h
  simp only [Schema.build, hj, hj', hdepth, Except.mapError, ofExcept_ok_bind, hnested]

end Builds

end Schemata
