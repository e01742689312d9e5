import Mathlib.Tactic.MkIffOfInductiveProp
import Schemata.Proofs.Cuts

/-!
# What a dump shows of a schema

A dump can be read back where names are words and the texts in it are in one piece (`IsLegible`). It then shows what
makes two schemas look alike, and this is all that it is there to show, but for two things: a scale without a size is
left out, and an expression in single quotes is shown like the literal between them.
-/

namespace Schemata

open Text

/-! ### Legible schemas -/

/-- A text without blanks and ends of lines. -/
def Text.isUnbroken (s : String) : Bool :=
  lacks ' ' s && lacks '\n' s

theorem Text.lacks_of_isUnbroken {s : String} (h : isUnbroken s = true) {c : Char} (hc : c = ' ' ∨ c = '\n') :
    lacks c s = true := by
  obtain ⟨hblank, hend⟩ := Bool.and_eq_true_iff.mp h
  rcases hc with rfl | rfl
  · exact hblank
  · exact hend

def Default.text : Default → String
  | .value text => text
  | .expression text => text

@[mk_iff]
structure KeyId.IsLegible (k : KeyId) : Prop where
  table : isWord k.table = true
  name : isWord k.name = true

@[mk_iff]
structure Column.IsLegible (c : Column) : Prop where
  name : isWord c.name = true
  default : ∀ d ∈ c.domain.default, isUnbroken d.text = true
  referrers : ∀ k ∈ c.referrers, k.IsLegible

@[mk_iff]
structure Reference.IsLegible (r : Reference) : Prop where
  localColumn : isWord r.localColumn = true
  foreignColumn : isWord r.foreignColumn = true

@[mk_iff]
structure ForeignKey.IsLegible (k : ForeignKey) : Prop where
  name : isWord k.name = true
  target : isWord k.target = true
  references : ∀ r ∈ k.references, r.IsLegible

@[mk_iff]
structure Index.IsLegible (i : Index) : Prop where
  name : ∀ name ∈ i.ownName, isWord name = true
  columns : ∀ c ∈ i.columns, isWord c.name = true

@[mk_iff]
structure Behavior.IsLegible (b : Behavior) : Prop where
  id : isWord b.id = true
  name : isWord b.name = true
  parameters : ∀ p ∈ b.parameters.entries, isUnbroken p.1 = true ∧ isUnbroken p.2 = true

@[mk_iff]
structure Table.IsLegible (t : Table) : Prop where
  name : isWord t.name = true
  sqlName : isWord t.sqlName = true
  columns : ∀ c ∈ t.columns, c.IsLegible
  foreignKeys : ∀ k ∈ t.foreignKeys, k.IsLegible
  indices : ∀ i ∈ t.indices, i.IsLegible
  uniques : ∀ i ∈ t.uniques, i.IsLegible
  behaviors : ∀ b ∈ t.behaviors, b.IsLegible
  referrers : ∀ k ∈ t.referrers, k.IsLegible

@[mk_iff]
structure Database.IsLegible (d : Database) : Prop where
  name : isWord d.name = true
  /-- A namespace may have separators. -/
  nameSpace : ∀ name ∈ d.nameSpace, lacks '\n' name = true
  behaviors : ∀ b ∈ d.behaviors, b.IsLegible
  tables : ∀ t ∈ d.tables, t.IsLegible

/-- Names and ids are words, and defaults and parameters are in one piece. -/
def Schema.IsLegible (s : Schema) : Prop :=
  ∀ d ∈ s.databases, d.IsLegible

instance (k : KeyId) : Decidable k.IsLegible :=
  decidable_of_iff' _ (KeyId.isLegible_iff k)

instance (c : Column) : Decidable c.IsLegible :=
  decidable_of_iff' _ (Column.isLegible_iff c)

instance (r : Reference) : Decidable r.IsLegible :=
  decidable_of_iff' _ (Reference.isLegible_iff r)

instance (k : ForeignKey) : Decidable k.IsLegible :=
  decidable_of_iff' _ (ForeignKey.isLegible_iff k)

instance (i : Index) : Decidable i.IsLegible :=
  decidable_of_iff' _ (Index.isLegible_iff i)

instance (b : Behavior) : Decidable b.IsLegible :=
  decidable_of_iff' _ (Behavior.isLegible_iff b)

instance (t : Table) : Decidable t.IsLegible :=
  decidable_of_iff' _ (Table.isLegible_iff t)

instance (d : Database) : Decidable d.IsLegible :=
  decidable_of_iff' _ (Database.isLegible_iff d)

instance (s : Schema) : Decidable s.IsLegible :=
  inferInstanceAs (Decidable (∀ d ∈ s.databases, d.IsLegible))

/-! ### Likeness -/

/-- The same default, or a literal and the expression that has it in single quotes. -/
inductive Default.LooksLike : Option Default → Option Default → Prop where
  | same (d : Option Default) : LooksLike d d
  | quoted (text : String) : LooksLike (some (.value text)) (some (.expression ("'" ++ text ++ "'")))
  | unquoted (text : String) : LooksLike (some (.expression ("'" ++ text ++ "'"))) (some (.value text))

/-- Columns that show the same up to scale and default. -/
structure Column.Resembles (c d : Column) : Prop where
  name : c.name = d.name
  type : c.domain.type = d.domain.type
  size : c.domain.size = d.domain.size
  primaryKey : c.primaryKey = d.primaryKey
  autoIncrement : c.autoIncrement = d.autoIncrement
  notNull : c.notNull = d.notNull
  referrers : c.referrers = d.referrers

/-- Columns that a dump does not tell apart. -/
structure Column.LooksLike (c d : Column) : Prop extends c.Resembles d where
  /-- A scale is shown behind a size only. -/
  scale : c.domain.size ≠ none → c.domain.scale = d.domain.scale
  default : Default.LooksLike c.domain.default d.domain.default

/-- Columns that a dump is not meant to tell apart. -/
structure Column.AgreesWith (c d : Column) : Prop extends c.Resembles d where
  scale : c.domain.scale = d.domain.scale
  default : c.domain.default = d.domain.default

structure ForeignKey.LooksLike (k l : ForeignKey) : Prop where
  name : k.name = l.name
  target : k.target = l.target
  references : k.references = l.references
  onDelete : k.onDelete = l.onDelete
  onUpdate : k.onUpdate = l.onUpdate

structure Index.LooksLike (i j : Index) : Prop where
  name : i.name = j.name
  columns : i.columns = j.columns

/-- A parameter of a behavior as it is shown. -/
def Dump.parameterText (p : String × String) : String :=
  p.1 ++ "=" ++ p.2

structure Behavior.LooksLike (b c : Behavior) : Prop where
  id : b.id = c.id
  name : b.name = c.name
  parameters : b.parameters.entries.map Dump.parameterText = c.parameters.entries.map Dump.parameterText
  executed : b.executed = c.executed

/-- Tables that show the same where columns show the same if they are related by `R`. -/
structure Table.LooksLike (R : Column → Column → Prop) (t u : Table) : Prop where
  name : t.name = u.name
  sqlName : t.sqlName = u.sqlName
  referenceOnly : t.referenceOnly = u.referenceOnly
  skipSql : t.skipSql = u.skipSql
  idMethod : t.idMethod = u.idMethod
  containsForeignKey : t.containsForeignKey = u.containsForeignKey
  columns : List.Forall₂ R t.columns u.columns
  foreignKeys : List.Forall₂ ForeignKey.LooksLike t.foreignKeys u.foreignKeys
  indices : List.Forall₂ Index.LooksLike t.indices u.indices
  uniques : List.Forall₂ Index.LooksLike t.uniques u.uniques
  behaviors : List.Forall₂ Behavior.LooksLike t.behaviors u.behaviors
  referrers : t.referrers = u.referrers

structure Database.LooksLike (R : Column → Column → Prop) (d e : Database) : Prop where
  name : d.name = e.name
  idMethod : d.settings.idMethod = e.settings.idMethod
  heavyIndexing : d.settings.heavyIndexing = e.settings.heavyIndexing
  identifierQuoting : d.settings.identifierQuoting = e.settings.identifierQuoting
  stringFormat : d.settings.stringFormat = e.settings.stringFormat
  nameSpace : d.nameSpace = e.nameSpace
  behaviors : List.Forall₂ Behavior.LooksLike d.behaviors e.behaviors
  tables : List.Forall₂ (Table.LooksLike R) d.tables e.tables

/-- Schemas with the same databases, in the same order, where columns are the same if they are related by `R`. -/
def Schema.LooksLike (R : Column → Column → Prop) (s t : Schema) : Prop :=
  List.Forall₂ (Database.LooksLike R) s.databases t.databases

theorem Column.AgreesWith.refl (c : Column) : c.AgreesWith c :=
  ⟨⟨rfl, rfl, rfl, rfl, rfl, rfl, rfl⟩, rfl, rfl⟩

theorem ForeignKey.LooksLike.refl (k : ForeignKey) : k.LooksLike k :=
  ⟨rfl, rfl, rfl, rfl, rfl⟩

theorem Index.LooksLike.refl (i : Index) : i.LooksLike i :=
  ⟨rfl, rfl⟩

theorem Behavior.LooksLike.refl (b : Behavior) : b.LooksLike b :=
  ⟨rfl, rfl, rfl, rfl⟩

theorem Table.LooksLike.refl {R : Column → Column → Prop} (hR : ∀ c, R c c) (t : Table) : t.LooksLike R t where
  name := rfl
  sqlName := rfl
  referenceOnly := rfl
  skipSql := rfl
  idMethod := rfl
  containsForeignKey := rfl
  columns := List.forall₂_same.mpr fun c _ => hR c
  foreignKeys := List.forall₂_same.mpr fun k _ => .refl k
  indices := List.forall₂_same.mpr fun i _ => .refl i
  uniques := List.forall₂_same.mpr fun i _ => .refl i
  behaviors := List.forall₂_same.mpr fun b _ => .refl b
  referrers := rfl

/-! ### What is not shown -/

/-- Columns of which the dump shows the scale, and the default for what it is. -/
structure Column.IsExplicit (c : Column) : Prop where
  scale : c.domain.size = none → c.domain.scale = none
  default : ∀ text, c.domain.default ≠ some (.expression ("'" ++ text ++ "'"))

def Table.IsExplicit (t : Table) : Prop :=
  ∀ c ∈ t.columns, c.IsExplicit

def Database.IsExplicit (d : Database) : Prop :=
  ∀ t ∈ d.tables, t.IsExplicit

def Schema.IsExplicit (s : Schema) : Prop :=
  ∀ d ∈ s.databases, d.IsExplicit

theorem Default.LooksLike.eq {d e : Option Default} (h : Default.LooksLike d e)
    (hd : ∀ text, d ≠ some (.expression ("'" ++ text ++ "'")))
    (he : ∀ text, e ≠ some (.expression ("'" ++ text ++ "'"))) : d = e := by
  cases h with
  | same => rfl
  | quoted text => exact absurd rfl (he text)
  | unquoted text => exact absurd rfl (hd text)

theorem Column.AgreesWith.looksLike {c d : Column} (h : c.AgreesWith d) : c.LooksLike d where
  toResembles := h.toResembles
  scale := fun _ => h.scale
  default := h.default ▸ .same _

theorem Column.LooksLike.agreesWith {c d : Column} (h : c.LooksLike d) (hc : c.IsExplicit) (hd : d.IsExplicit) :
    c.AgreesWith d where
  toResembles := h.toResembles
  scale := by
    by_cases hsize : c.domain.size = none
    · rw [hc.scale hsize, hd.scale (h.size ▸ hsize)]
    · exact h.scale hsize
  default := h.default.eq hc.default hd.default

section Change
variable {R S : Column → Column → Prop}

theorem forall₂_of_mem {α β : Type} {R S : α → β → Prop} {as : List α} {bs : List β} (h : List.Forall₂ R as bs)
    (hRS : ∀ a ∈ as, ∀ b ∈ bs, R a b → S a b) : List.Forall₂ S as bs := by
  rw [List.forall₂_iff_zip] at h ⊢
  exact ⟨h.1, fun hmem => hRS _ (List.of_mem_zip hmem).1 _ (List.of_mem_zip hmem).2 (h.2 hmem)⟩

/-- Tables look alike under another relation if it holds of their columns. -/
theorem Table.LooksLike.imp {t u : Table} (h : t.LooksLike R u)
    (hRS : ∀ c ∈ t.columns, ∀ d ∈ u.columns, R c d → S c d) : t.LooksLike S u :=
  { h with columns := forall₂_of_mem h.columns hRS }

theorem Database.LooksLike.imp {d e : Database} (h : d.LooksLike R e)
    (hRS : ∀ t ∈ d.tables, ∀ u ∈ e.tables, ∀ c ∈ t.columns, ∀ c' ∈ u.columns, R c c' → S c c') : d.LooksLike S e :=
  { h with tables := forall₂_of_mem h.tables fun t ht u hu htu => htu.imp (hRS t ht u hu) }

theorem Schema.LooksLike.imp {s t : Schema} (h : s.LooksLike R t)
    (hRS : ∀ d ∈ s.databases, ∀ e ∈ t.databases, ∀ u ∈ d.tables, ∀ v ∈ e.tables, ∀ c ∈ u.columns, ∀ c' ∈ v.columns,
      R c c' → S c c') : s.LooksLike S t :=
  forall₂_of_mem h fun d hd e he hde => hde.imp (hRS d hd e he)

end Change

/-- Explicit schemas that look alike agree in everything that the dump is there to show. -/
theorem Schema.looksLike_iff_agreesWith {s t : Schema} (hs : s.IsExplicit) (ht : t.IsExplicit) :
    s.LooksLike Column.LooksLike t ↔ s.LooksLike Column.AgreesWith t := by
  constructor
  · intro h
    exact h.imp fun d hd e he u hu v hv c hc c' hc' hlike =>
      hlike.agreesWith (hs d hd u hu c hc) (ht e he v hv c' hc')
  · intro h
    exact h.imp fun _ _ _ _ _ _ _ _ _ _ _ _ hagrees => hagrees.looksLike

end Schemata
