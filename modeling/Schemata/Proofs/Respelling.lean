import Schemata.Proofs.Coverage
import Schemata.Proofs.Lookup
import Schemata.Proofs.Spellings

/-!
# Includes in another spelling

The same files may be written twice, with other spellings of what they include. What is reached in the one
version is then reached in the other as well, at the same places (`Respelling.exists_twin`).
-/

namespace Schemata

open Change Relation

/-- What a library has in a file does not depend on the spelling of its path. -/
def Library.IsLexical (l : Library) : Prop :=
  ∀ p q : Path, p.destination = q.destination → l.load p = l.load q

section Lexical
variable {l : Library} {start : Option Path} {j : Json}

theorem Library.IsLexical.respectful_declAt (hl : l.IsLexical) : Respectful (declAt l) :=
  fun p q h => declAt_congr (hl p q (Path.destination_congr h))

theorem Library.IsLexical.respectful (hl : l.IsLexical) : Respectful (declFrom l start j) :=
  hl.respectful_declAt.declFrom

end Lexical

section Graph
variable {source source' : Option Path → Option SchemaDecl} {start x x' y : Option Path}

/-! ### Files under one spelling -/

/-- A file that is reached and of which `P` holds is always reached under the same spelling. -/
def OneSpelling (source : Option Path → Option SchemaDecl) (start : Option Path) (P : Path → Prop) : Prop :=
  ∀ p q : Path, ReflTransGen (Includes source) start (some p) → ReflTransGen (Includes source) start (some q) →
    P p → p.destination = q.destination → p.components = q.components

def HasTables (source : Option Path → Option SchemaDecl) (p : Path) : Prop :=
  ∃ decl, source (some p) = some decl ∧ decl.tables ≠ []

/-- When the files among which every include leads have one spelling each, so has everything that is reached. -/
theorem OneSpelling.of_covers (hsource : Respectful source) {files : List Path}
    (hstart : ∀ p, start = some p → p ∈ files)
    (hcovers : ∀ x, x = start ∨ x ∈ files.map some → ∀ decl, source x = some decl → Covers files x decl.includes)
    (hfiles : ∀ p ∈ files, ∀ q ∈ files, p.destination = q.destination → p.components = q.components)
    (P : Path → Prop) : OneSpelling source start P := by
  have hreached : ∀ p : Path, ReflTransGen (Includes source) start (some p) →
      ∃ q ∈ files, p.components = q.components := by
    intro p hp
    rcases reached_of_covers hsource hcovers hp with heq | ⟨q, hq, hpq⟩
    · exact ⟨p, hstart p heq.symm, rfl⟩
    · exact ⟨q, hq, Option.some.inj hpq⟩
  intro p q hp hq _ hsame
  obtain ⟨a, ha, hpa⟩ := hreached p hp
  obtain ⟨b, hb, hqb⟩ := hreached q hq
  rw [hpa, hqb]
  exact hfiles a ha b hb (by rw [← Path.destination_congr hpa, hsame, Path.destination_congr hqb])

/-! ### The same files with other spellings -/

/-- The include `i'` of the file `x'` says the same as the include `i` of the file `x`, and leads to the same file. -/
structure IncludeDecl.Respells (x x' : Option Path) (i i' : IncludeDecl) : Prop where
  referenceOnly : i'.referenceOnly = i.referenceOnly
  target : i.target? x = i'.target? x'

/-- The declaration `decl'` of the file `x'` is the declaration `decl` of the file `x`, with other spellings of what it
    includes. -/
structure SchemaDecl.Respells (x x' : Option Path) (decl decl' : SchemaDecl) : Prop where
  rest : decl' = { decl with includes := decl'.includes }
  includes : List.Forall₂ (IncludeDecl.Respells x x') decl.includes decl'.includes

/-- What is in the files that are reached is the same, apart from the spellings of what they include. -/
def Respelling (source source' : Option Path → Option SchemaDecl) (start : Option Path) : Prop :=
  ∀ x x' decl', ReflTransGen (Includes source) start x → ReflTransGen (Includes source') start x' →
    x.map Path.destination = x'.map Path.destination → source' x' = some decl' →
    ∃ decl, source x = some decl ∧ decl.Respells x x' decl'

theorem endsInName_of_reached (hstart : ∀ p, start = some p → p.endsInName = true)
    (hnames : ∀ x decl, source x = some decl → ∀ i ∈ decl.includes, (⟨i.filename⟩ : Path).endsInName = true)
    (hx : ReflTransGen (Includes source) start x) : ∀ p, x = some p → p.endsInName = true := by
  rintro p rfl
  rcases hx.cases_tail with heq | ⟨y, -, decl, i, q, hdecl, hi, hq, hpq⟩
  · exact hstart p heq.symm
  · rw [Path.endsInName_congr (Option.some.inj hpq)]
    exact endsInName_resolveInclude (hnames y decl hdecl i hi) hq

/-- The declarations differ at most in the spellings of filenames. -/
structure SchemaDecl.Renames (decl decl' : SchemaDecl) : Prop where
  rest : decl' = { decl with includes := decl'.includes }
  includes : List.Forall₂ (fun i i' : IncludeDecl => i'.referenceOnly = i.referenceOnly ∧
    (⟨i.filename⟩ : Path).destination = (⟨i'.filename⟩ : Path).destination) decl.includes decl'.includes

/-- Filenames may be written in any way that leads to the same place, as long as files end in names. -/
theorem Respelling.of_filenames (hstart : ∀ p, start = some p → p.endsInName = true)
    (hnames : ∀ x decl, source x = some decl → ∀ i ∈ decl.includes, (⟨i.filename⟩ : Path).endsInName = true)
    (hnames' : ∀ x decl, source' x = some decl → ∀ i ∈ decl.includes, (⟨i.filename⟩ : Path).endsInName = true)
    (hfiles : ∀ x x' decl', x.map Path.destination = x'.map Path.destination → source' x' = some decl' →
      ∃ decl, source x = some decl ∧ decl.Renames decl') : Respelling source source' start := by
  intro x x' decl' hx hx' hsame hdecl'
  obtain ⟨decl, hdecl, hrenames⟩ := hfiles x x' decl' hsame hdecl'
  refine ⟨decl, hdecl, hrenames.rest, hrenames.includes.imp fun i i' hi => ⟨hi.1, ?_⟩⟩
  exact IncludeDecl.target?_congr hsame (endsInName_of_reached hstart hnames hx)
    (endsInName_of_reached hstart hnames' hx') hi.2

/-! ### Files beside each other -/

/-- Files that the two libraries reach, `x` in the first one and `x'` in the second one, and that are the same. -/
structure Twins (source source' : Option Path → Option SchemaDecl) (start x x' : Option Path) : Prop where
  reached : ReflTransGen (Includes source) start x
  reached' : ReflTransGen (Includes source') start x'
  same : x.map Path.destination = x'.map Path.destination

/-- Includes at the same place of files that are the same. -/
structure TwinIncludes (source source' : Option Path → Option SchemaDecl) (x x' : Option Path) (i i' : IncludeDecl) :
    Prop where
  included : ∃ decl, source x = some decl ∧ i ∈ decl.includes
  included' : ∃ decl', source' x' = some decl' ∧ i' ∈ decl'.includes
  respells : i.Respells x x' i'

theorem SchemaDecl.Respells.twinIncludes {decl decl' : SchemaDecl} (h : decl.Respells x x' decl')
    (hdecl : source x = some decl) (hdecl' : source' x' = some decl') :
    List.Forall₂ (TwinIncludes source source' x x') decl.includes decl'.includes := by
  obtain ⟨hlength, hall⟩ := List.forall₂_iff_zip.mp h.includes
  refine List.forall₂_iff_zip.mpr ⟨hlength, fun hmem => ?_⟩
  obtain ⟨hi, hi'⟩ := List.of_mem_zip hmem
  exact ⟨⟨decl, hdecl, hi⟩, ⟨decl', hdecl', hi'⟩, hall hmem⟩

theorem TwinIncludes.twins {i i' : IncludeDecl} (h : TwinIncludes source source' x x' i i')
    (hx : Twins source source' start x x') (hp' : resolveInclude x' i'.filename = .ok p') :
    Includes source' x' (some p') ∧
      ∃ p, resolveInclude x i.filename = .ok p ∧ Twins source source' start (some p) (some p') := by
  obtain ⟨decl, hdecl, hi⟩ := h.included
  obtain ⟨decl', hdecl', hi'⟩ := h.included'
  have hinc' : Includes source' x' (some p') := ⟨decl', i', p', hdecl', hi', hp', rfl⟩
  have htarget : (resolveInclude x i.filename).toOption.map Path.destination = some p'.destination :=
    h.respells.target.trans (by rw [IncludeDecl.target?, hp']; rfl)
  refine ⟨hinc', ?_⟩
  cases hp : resolveInclude x i.filename with
  | error e =>
    rw [hp] at htarget
    cases htarget
  | ok p =>
    rw [hp] at htarget
    exact ⟨p, rfl, hx.reached.tail ⟨decl, i, p, hdecl, hi, hp, rfl⟩, hx.reached'.tail hinc', htarget⟩

/-- What the first library includes in a file the second one includes in the same file. -/
theorem Respelling.includes (hfiles : Respelling source source' start) {loaded : List Path}
    (hfinished : Finished r source' loaded start) (hx : Twins source source' start x x') (hxy : Includes source x y) :
    ∃ y', Includes source' x' y' ∧ Twins source source' start y y' := by
  obtain ⟨decl', hdecl', -, hcovers⟩ := hfinished x' hx.reached'
  obtain ⟨decl, hdecl, hrespells⟩ := hfiles x x' decl' hx.reached hx.reached' hx.same hdecl'
  obtain ⟨found, i, p, hfound, hi, hp, hy⟩ := id hxy
  obtain rfl := Option.some.inj (hdecl.symm.trans hfound)
  obtain ⟨n, hn⟩ := List.mem_iff_getElem?.mp hi
  obtain ⟨i', hn', htwin⟩ := getElem?_of_forall₂ (hrespells.twinIncludes hdecl hdecl') hn
  obtain ⟨p', hp', -⟩ := hcovers i' (List.mem_of_getElem? hn')
  obtain ⟨hinc', q, hq, htwins⟩ := htwin.twins hx hp'
  obtain rfl := Except.ok.inj (hp.symm.trans hq)
  obtain ⟨q, rfl, hqp⟩ := Option.map_eq_some_iff.mp hy
  refine ⟨some p', hinc', hx.reached.tail hxy, htwins.reached', ?_⟩
  rw [Option.map_some, Path.destination_congr hqp]
  exact htwins.same

theorem Respelling.exists_twin (hfiles : Respelling source source' start) {loaded : List Path}
    (hfinished : Finished r source' loaded start) (hx : ReflTransGen (Includes source) start x) :
    ∃ x', Twins source source' start x x' := by
  induction hx with
  | refl => exact ⟨start, .refl, .refl, rfl⟩
  | tail _ hxy ih =>
    obtain ⟨x', hx'⟩ := ih
    obtain ⟨y', -, hy'⟩ := hfiles.includes hfinished hx' hxy
    exact ⟨y', hy'⟩

/-- The first file has one spelling, since the second library would have a cycle otherwise. -/
theorem Respelling.start_once (hfiles : Respelling source source' start) {loaded : List Path}
    (hfinished : Finished r source' loaded start) (honce : OneSpelling source' start fun _ => True)
    (hacyclic : ¬TransGen (Includes source') start start) {p q : Path} (hstart : start = some p)
    (hq : ReflTransGen (Includes source) start (some q)) (hsame : q.destination = p.destination) :
    q.components = p.components := by
  rcases hq.cases_tail with heq | ⟨x, hx, hxq⟩
  · rw [hstart] at heq
    rw [Option.some.inj heq]
  · obtain ⟨x', hx'⟩ := hfiles.exists_twin hfinished hx
    obtain ⟨y', hxy', hy'⟩ := hfiles.includes hfinished hx' hxq
    obtain ⟨q', rfl, hq'⟩ := Option.map_eq_some_iff.mp hy'.same.symm
    have hcomps := honce q' p hy'.reached' (hstart ▸ .refl) trivial (hq'.trans hsame)
    have hback : Includes source' x' start := hstart ▸ hxy'.of_same hcomps
    exact absurd (TransGen.tail' hx'.reached' hback) hacyclic

end Graph

end Schemata
