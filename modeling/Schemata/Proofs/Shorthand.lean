import Schemata.Plugin.Builtin
import Schemata.Proofs.Declared

/-!
# Shorthand in schema trees

A tree may leave out what it does not need to say: a block that stands alone is not put into a list, an
index column is only its name, behaviors are a map from names to parameters. Here the shorthand is spelled
out at any nodes of a tree, and the same declaration is read from it.

A list is ambiguous where a record may be written as an array of its fields, so what is read from a list of
one block must be shown not to be a record.
-/

namespace Schemata

variable {α β : Type}

/-! ### Spelling out one value -/

/-- A block that stands alone is put into a list. -/
inductive Listed : Json → Json → Prop where
  | same (j : Json) : Listed j j
  | alone (ms : List (String × Json)) : Listed (.obj ms) (.arr [.obj ms])

/-- The record of an index column that is only a name. -/
inductive NamedInFull : Json → Json → Prop where
  | same (j : Json) : NamedInFull j j
  | bare (n : String) : NamedInFull (.str n) (.obj [("name", .str n)])

/-- The record of a behavior of a map. It has no parameters where the value is not an object. -/
def behaviorRecord (m : String × Json) : Json :=
  .obj [("name", .str m.1), ("parameters", .obj (match m.2 with | .obj ps => ps | _ => []))]

/-- The list of the behaviors of a map, in the order of its keys. -/
inductive BehaviorsListed : Json → Json → Prop where
  | same (j : Json) : BehaviorsListed j j
  | map (ms : List (String × Json)) : BehaviorsListed (.obj ms) (.arr (ms.map behaviorRecord))

/-- Each item of an array is spelled out. -/
inductive Itemwise (R : Json → Json → Prop) : Json → Json → Prop where
  | same (j : Json) : Itemwise R j j
  | items {xs ys : List Json} (h : List.Forall₂ R xs ys) : Itemwise R (.arr xs) (.arr ys)

namespace RecordKind

variable {k : RecordKind α} {R : String → Json → Json → Prop}

/-- A member of an object is spelled out as its field is; a member that is no field may hold anything. -/
def MemberSpelled (k : RecordKind α) (R : String → Json → Json → Prop) (m n : String × Json) : Prop :=
  m.1 = n.1 ∧ ∀ name, k.fieldName? m.1 = some name → R name m.2 n.2

/-- The items of an array are spelled out as the fields at their positions are. -/
inductive ItemsSpelled (R : String → Json → Json → Prop) : List RecordField → List Json → List Json → Prop where
  | nil (fields : List RecordField) : ItemsSpelled R fields [] []
  | cons {f : RecordField} {fields : List RecordField} {x y : Json} {xs ys : List Json} (head : R f.name x y)
      (tail : ItemsSpelled R fields xs ys) : ItemsSpelled R (f :: fields) (x :: xs) (y :: ys)

/-- The fields of a record are spelled out, each in its own way `R name`. -/
inductive Spelled (k : RecordKind α) (R : String → Json → Json → Prop) : Json → Json → Prop where
  | same (j : Json) : Spelled k R j j
  | members {ms ns : List (String × Json)} (h : List.Forall₂ (k.MemberSpelled R) ms ns) :
      Spelled k R (.obj ms) (.obj ns)
  | items {xs ys : List Json} (h : ItemsSpelled R k.fields xs ys) : Spelled k R (.arr xs) (.arr ys)

end RecordKind

/-! ### Spelling out a schema -/

inductive ColumnDecl.FieldSpelled : String → Json → Json → Prop where
  | same (name : String) (j : Json) : FieldSpelled name j j
  | vendor {j j' : Json} (h : Listed j j') : FieldSpelled "vendor" j j'

inductive ForeignKeyDecl.FieldSpelled : String → Json → Json → Prop where
  | same (name : String) (j : Json) : FieldSpelled name j j
  | vendor {j j' : Json} (h : Listed j j') : FieldSpelled "vendor" j j'

inductive IndexDecl.FieldSpelled : String → Json → Json → Prop where
  | same (name : String) (j : Json) : FieldSpelled name j j
  | columns {j j' : Json} (h : Itemwise NamedInFull j j') : FieldSpelled "columns" j j'
  | vendor {j j' : Json} (h : Listed j j') : FieldSpelled "vendor" j j'

inductive TableDecl.FieldSpelled : String → Json → Json → Prop where
  | same (name : String) (j : Json) : FieldSpelled name j j
  | idParameters {j j' : Json} (h : Listed j j') : FieldSpelled "idMethodParameter" j j'
  | columns {j j' : Json} (h : Itemwise (ColumnDecl.record.Spelled ColumnDecl.FieldSpelled) j j') :
      FieldSpelled "columns" j j'
  | foreignKeys {j j' : Json} (h : Itemwise (ForeignKeyDecl.record.Spelled ForeignKeyDecl.FieldSpelled) j j') :
      FieldSpelled "foreignKeys" j j'
  | indices {j j' : Json} (h : Itemwise (IndexDecl.record.Spelled IndexDecl.FieldSpelled) j j') :
      FieldSpelled "indices" j j'
  | uniques {j j' : Json} (h : Itemwise (IndexDecl.record.Spelled IndexDecl.FieldSpelled) j j') :
      FieldSpelled "uniques" j j'
  | behaviors {j j' : Json} (h : BehaviorsListed j j') : FieldSpelled "behaviors" j j'
  | vendor {j j' : Json} (h : Listed j j') : FieldSpelled "vendor" j j'

inductive SchemaDecl.FieldSpelled : String → Json → Json → Prop where
  | same (name : String) (j : Json) : FieldSpelled name j j
  | behaviors {j j' : Json} (h : BehaviorsListed j j') : FieldSpelled "behaviors" j j'
  | vendor {j j' : Json} (h : Listed j j') : FieldSpelled "vendor" j j'
  | tables {j j' : Json} (h : Itemwise (TableDecl.record.Spelled TableDecl.FieldSpelled) j j') :
      FieldSpelled "tables" j j'

/-- A schema tree with the shorthand spelled out at any of its nodes. -/
def SchemaDecl.SpelledOut : Json → Json → Prop :=
  SchemaDecl.record.Spelled SchemaDecl.FieldSpelled

/-! ### What a shape reads -/

/-- What a shape reads from a value, it reads from the value that is spelled out. -/
def Shape.Keeps (s : Shape α) (R : Json → Json → Prop) : Prop :=
  ∀ ⦃j j' : Json⦄ ⦃a : α⦄, R j j' → s j = .ok a → s j' = .ok a

namespace Shape

variable {s : Shape α} {R : Json → Json → Prop}

theorem Keeps.bind (h : s.Keeps R) (f : α → Except ShapeError β) : Keeps (fun j => s j >>= f) R := by
  intro j j' b hR hb
  obtain ⟨a, ha, hf⟩ := bind_eq_ok.mp hb
  exact bind_eq_ok.mpr ⟨a, h hR ha, hf⟩

theorem mapM_of_forall₂ (h : s.Keeps R) {xs ys : List Json} {as : List α} (hR : List.Forall₂ R xs ys)
    (has : xs.mapM s = .ok as) : ys.mapM s = .ok as := by
  induction hR generalizing as with
  | nil => exact has
  | @cons x y xs ys hxy _ ih =>
    rw [List.mapM_cons] at has ⊢
    obtain ⟨a, ha, hrest⟩ := bind_eq_ok.mp has
    obtain ⟨bs, hbs, hpure⟩ := bind_eq_ok.mp hrest
    exact bind_eq_ok.mpr ⟨a, h hxy ha, bind_eq_ok.mpr ⟨bs, ih hbs, hpure⟩⟩

theorem Keeps.list (h : s.Keeps R) : (list s).Keeps (Itemwise R) := by
  intro j j' as hR has
  cases hR with
  | same => exact has
  | items hitems => exact mapM_of_forall₂ h hitems has

theorem either_of_first {name : String} {first second : Shape α} {j : Json} {a : α} (h : first j = .ok a) :
    either name first second j = .ok a := by
  rw [either, h]

theorem either_of_second {name : String} {first second : Shape α} {j : Json} {e : ShapeError} {a : α}
    (h : first j = .error e) (ha : second j = .ok a) : either name first second j = .ok a := by
  rw [either, h]
  simp only [ha]

/-- An object in a list is read as a list of one where it cannot be a field of the record itself. -/
theorem keeps_oneOrMany (h : ∀ ms, ∃ e, s (.arr [.obj ms]) = .error e) : (oneOrMany s).Keeps Listed := by
  intro j j' as hR has
  cases hR with
  | same => exact has
  | alone ms =>
    obtain ⟨e, he⟩ := h ms
    have hfirst : (s (.arr [.obj ms])).map (fun a => [a]) = .error e := by
      rw [he]
      rfl
    refine either_of_second hfirst ?_
    cases ha : s (.obj ms) with
    | error e' => simp [oneOrMany, either, ha, Except.map, list] at has
    | ok a =>
      simp only [oneOrMany, either, ha, Except.map] at has
      rw [← has]
      show [Json.obj ms].mapM s = _
      rw [List.mapM_cons, ha]
      rfl

end Shape

namespace RecordKind

variable {k : RecordKind α} {R : String → Json → Json → Prop}

theorem MemberSpelled.of_field {key name : String} {x y : Json} (hname : k.fieldName? key = some name)
    (h : R name x y) : k.MemberSpelled R (key, x) (key, y) := by
  refine ⟨rfl, fun name' hname' => ?_⟩
  cases hname.symm.trans hname'
  exact h

/-- Each field of a record is read the same from the value that is spelled out. -/
def PutKeeps (k : RecordKind α) (R : String → Json → Json → Prop) : Prop :=
  ∀ name a, Shape.Keeps (fun j => k.put name j a) (R name)

theorem putMembers_spelled (h : k.PutKeeps R) {ms ns : List (String × Json)} {a : α} {seen : List String}
    {p : α × List String} (hms : List.Forall₂ (k.MemberSpelled R) ms ns) (hp : k.putMembers a seen ms = .ok p) :
    k.putMembers a seen ns = .ok p := by
  induction hms generalizing a seen with
  | nil => exact hp
  | @cons m n ms ns hmn _ ih =>
    obtain ⟨hkey, hvalue⟩ := hmn
    rw [putMembers] at hp ⊢
    rw [← hkey]
    cases hname : k.fieldName? m.1 with
    | none =>
      simp only [hname] at hp ⊢
      exact ih hp
    | some name =>
      simp only [hname] at hp ⊢
      split at hp
      · cases hp
      · rename_i hseen
        rw [if_neg hseen]
        obtain ⟨b, hb, hrest⟩ := bind_eq_ok.mp hp
        exact bind_eq_ok.mpr ⟨b, h name a (hvalue name hname) hb, ih hrest⟩

theorem putItems_spelled (h : k.PutKeeps R) {fields : List RecordField} {xs ys : List Json} {a b : α} {pos : Nat}
    (hxs : ItemsSpelled R fields xs ys) (hb : k.putItems a pos fields xs = .ok b) :
    k.putItems a pos fields ys = .ok b := by
  induction hxs generalizing a pos with
  | nil fields => exact hb
  | @cons f fields x y xs ys hxy _ ih =>
    obtain ⟨c, hc, hrest⟩ := bind_eq_ok.mp hb
    exact bind_eq_ok.mpr ⟨c, h f.name a hxy hc, ih hrest⟩

theorem ItemsSpelled.length_eq {fields : List RecordField} {xs ys : List Json} (h : ItemsSpelled R fields xs ys) :
    xs.length = ys.length := by
  induction h with
  | nil => rfl
  | cons _ _ ih => rw [List.length_cons, List.length_cons, ih]

/-- A record whose fields are read the same is read the same, as an object and as an array. -/
theorem PutKeeps.shape (h : k.PutKeeps R) : k.shape.Keeps (k.Spelled R) := by
  intro j j' a hR ha
  cases hR with
  | same => exact ha
  | members hms =>
    obtain ⟨p, hp, hrest⟩ := bind_eq_ok.mp ha
    exact bind_eq_ok.mpr ⟨p, putMembers_spelled h hms hp, hrest⟩
  | items hxs =>
    obtain ⟨b, hb, hrest⟩ := bind_eq_ok.mp ha
    refine bind_eq_ok.mpr ⟨b, putItems_spelled h hxs hb, ?_⟩
    rw [← hxs.length_eq]
    exact hrest

end RecordKind

/-! ### The parts of a schema -/

open Shape

theorem VendorDecl.keeps_listed : (oneOrMany VendorDecl.record.shape).Keeps Listed :=
  keeps_oneOrMany fun _ => ⟨_, rfl⟩

theorem IdParameterDecl.keeps_listed : (oneOrMany IdParameterDecl.record.shape).Keeps Listed :=
  keeps_oneOrMany fun _ => ⟨_, rfl⟩

theorem IndexColumnDecl.keeps_namedInFull : IndexColumnDecl.shape.Keeps NamedInFull := by
  intro j j' c hR hc
  cases hR with
  | same => exact hc
  | bare n => exact hc

namespace BehaviorDecl

theorem shape_behaviorRecord (m : String × Json) : record.shape (behaviorRecord m) = .ok (ofMember m) := by
  unfold behaviorRecord ofMember
  cases m.2 <;> rfl

theorem keeps_behaviorsListed : listShape.Keeps BehaviorsListed := by
  intro j j' bs hR hbs
  cases hR with
  | same => exact hbs
  | map ms =>
    have hmap : bs = ms.map ofMember := (Except.ok.inj hbs).symm
    refine either_of_first ?_
    show (ms.map behaviorRecord).mapM record.shape = .ok bs
    rw [List.mapM_map, hmap]
    have hread : record.shape ∘ behaviorRecord = fun m => pure (ofMember m) := funext shape_behaviorRecord
    rw [hread]
    exact List.mapM_pure

end BehaviorDecl

theorem ColumnDecl.putKeeps : record.PutKeeps FieldSpelled := by
  intro name c j j' b hR hb
  cases hR with
  | same => exact hb
  | vendor h => exact VendorDecl.keeps_listed.bind _ h hb

theorem ForeignKeyDecl.putKeeps : record.PutKeeps FieldSpelled := by
  intro name k j j' b hR hb
  cases hR with
  | same => exact hb
  | vendor h => exact VendorDecl.keeps_listed.bind _ h hb

theorem IndexDecl.putKeeps : record.PutKeeps FieldSpelled := by
  intro name i j j' b hR hb
  cases hR with
  | same => exact hb
  | columns h => exact IndexColumnDecl.keeps_namedInFull.list.bind _ h hb
  | vendor h => exact VendorDecl.keeps_listed.bind _ h hb

theorem TableDecl.putKeeps : record.PutKeeps FieldSpelled := by
  intro name t j j' b hR hb
  cases hR with
  | same => exact hb
  | idParameters h => exact IdParameterDecl.keeps_listed.bind _ h hb
  | columns h => exact ColumnDecl.putKeeps.shape.list.bind _ h hb
  | foreignKeys h => exact ForeignKeyDecl.putKeeps.shape.list.bind _ h hb
  | indices h => exact IndexDecl.putKeeps.shape.list.bind _ h hb
  | uniques h => exact IndexDecl.putKeeps.shape.list.bind _ h hb
  | behaviors h => exact BehaviorDecl.keeps_behaviorsListed.bind _ h hb
  | vendor h => exact VendorDecl.keeps_listed.bind _ h hb

theorem SchemaDecl.putKeeps : record.PutKeeps FieldSpelled := by
  intro name s j j' b hR hb
  cases hR with
  | same => exact hb
  | behaviors h => exact BehaviorDecl.keeps_behaviorsListed.bind _ h hb
  | vendor h => exact VendorDecl.keeps_listed.bind _ h hb
  | tables h => exact TableDecl.putKeeps.shape.list.bind _ h hb

theorem SchemaDecl.keeps_spelledOut : record.shape.Keeps SpelledOut :=
  putKeeps.shape

/-! ### Whole runs -/

/-- A library where the files are spelled out. A file that holds no declaration is left as it is. -/
structure Library.SpelledOut (l l' : Library) : Prop where
  depth : l'.depth = l.depth
  files : ∀ p, l'.load p = l.load p ∨ ∃ j j' decl, l.load p = .ok j ∧ l'.load p = .ok j' ∧
    SchemaDecl.record.shape j = .ok decl ∧ SchemaDecl.SpelledOut j j'

theorem Library.SpelledOut.refl (l : Library) : l.SpelledOut l where
  depth := rfl
  files _ := .inl rfl

theorem Library.SpelledOut.loadDecl_eq {l l' : Library} (h : l.SpelledOut l') : loadDecl l' = loadDecl l := by
  funext p
  obtain hsame | ⟨j, j', decl, hj, hj', hdecl, hspelled⟩ := h.files p
  · rw [loadDecl, loadDecl, hsame]
  · have hdecl' : SchemaDecl.record.shape j' = .ok decl := SchemaDecl.keeps_spelledOut hspelled hdecl
    simp only [loadDecl, hj, hj', hdecl, hdecl']

/-- Of its library, a build reads nothing but the declarations in its files. -/
theorem buildNested_congr {r : Registry} {l l' : Library} (h : loadDecl l' = loadDecl l) (depth : Nat) :
    buildNested r l' depth = buildNested r l depth := by
  have hinclude : buildInclude l' = buildInclude l := by
    funext build location i
    simp only [buildInclude, h]
  have hdecl : buildDecl r l' = buildDecl r l := by
    funext build decl location referenceOnly
    simp only [buildDecl, hinclude]
  induction depth with
  | zero => rw [buildNested, buildNested, hdecl]
  | succ depth ih => rw [buildNested, buildNested, hdecl, ih]

/-- A tree that can be read is still read with its shorthand spelled out, as the same declaration, and the
    same is built from it: the schema, the error and the log, also where included files are spelled out. -/
theorem SchemaDecl.SpelledOut.build_eq {j j' : Json} {decl : SchemaDecl} (h : SchemaDecl.SpelledOut j j')
    (hj : SchemaDecl.record.shape j = .ok decl) :
    SchemaDecl.record.shape j' = .ok decl ∧
      ∀ (r : Registry) (l l' : Library) (start : Option Path), l.SpelledOut l' →
        Schema.build r l' start j' = Schema.build r l start j := by
  have hj' : SchemaDecl.record.shape j' = .ok decl := SchemaDecl.keeps_spelledOut h hj
  refine ⟨hj', fun r l l' start hl => ?_⟩
  simp only [Schema.build, hj, hj', hl.depth, buildNested_congr hl.loadDecl_eq]

section Example
open RecordKind

/-- A store that uses each shorthand: its behaviors are a map, and its one table has the parameter of its id
    method alone, a column, written as an array of its fields, and an index over a bare name. -/
def terseStore : Json :=
  .obj [("name", .str "store"), ("behaviors", .obj [("timestampable", .null)]),
    ("tables", .arr [.obj [("name", .str "book"), ("idMethodParameter", .obj [("value", .str "book_seq")]),
      ("columns", .arr [.arr [.str "id"], .obj [("name", .str "isbn"), ("vendor", .obj [("type", .str "mysql")])]]),
      ("uniques", .arr [.obj [("columns", .arr [.str "isbn"])]])]])]

/-- The same store, spelled out. -/
def fullStore : Json :=
  .obj [("name", .str "store"),
    ("behaviors", .arr [.obj [("name", .str "timestampable"), ("parameters", .obj [])]]),
    ("tables", .arr [.obj [("name", .str "book"), ("idMethodParameter", .arr [.obj [("value", .str "book_seq")]]),
      ("columns",
        .arr [.arr [.str "id"], .obj [("name", .str "isbn"), ("vendor", .arr [.obj [("type", .str "mysql")]])]]),
      ("uniques", .arr [.obj [("columns", .arr [.obj [("name", .str "isbn")]])]])]])]

theorem spelledOut_terseStore : SchemaDecl.SpelledOut terseStore fullStore := by
  have hisbn : ColumnDecl.record.Spelled ColumnDecl.FieldSpelled
      (.obj [("name", .str "isbn"), ("vendor", .obj [("type", .str "mysql")])])
      (.obj [("name", .str "isbn"), ("vendor", .arr [.obj [("type", .str "mysql")]])]) :=
    .members (.cons (.of_field rfl (.same _ _)) (.cons (.of_field rfl (.vendor (.alone _))) .nil))
  have hunique : IndexDecl.record.Spelled IndexDecl.FieldSpelled
      (.obj [("columns", .arr [.str "isbn"])]) (.obj [("columns", .arr [.obj [("name", .str "isbn")]])]) :=
    .members (.cons (.of_field rfl (.columns (.items (.cons (.bare _) .nil)))) .nil)
  refine .members (.cons (.of_field rfl (.same _ _)) (.cons (.of_field rfl (.behaviors (.map _)))
    (.cons (.of_field rfl (.tables (.items (.cons ?_ .nil)))) .nil)))
  refine .members (.cons (.of_field rfl (.same _ _)) (.cons (.of_field rfl (.idParameters (.alone _)))
    (.cons (.of_field rfl (.columns (.items (.cons (.same _) (.cons hisbn .nil)))))
    (.cons (.of_field rfl (.uniques (.items (.cons hunique .nil)))) .nil))))

/-- The two stores are built into the same schema. Each shorthand leaves its mark in it. -/
theorem build_terseStore :
    SchemaDecl.SpelledOut terseStore fullStore ∧
      SchemaDecl.record.shape fullStore = SchemaDecl.record.shape terseStore ∧
      Schema.build .builtin .empty none fullStore = Schema.build .builtin .empty none terseStore ∧
      (Schema.build .builtin .empty none fullStore ()).result.toOption.map (fun s => s.databases.map fun d =>
        (d.behaviors.map (·.id), d.tables.map fun t => (t.name, t.idParameters.length, t.uniques.length))) =
        some [(["timestampable"], [("book", 1, 1)])] := by
  obtain ⟨hfull, hbuild⟩ := spelledOut_terseStore.build_eq rfl
  exact ⟨spelledOut_terseStore, hfull, hbuild _ _ _ _ (.refl _), by decide +kernel⟩

end Example

end Schemata
