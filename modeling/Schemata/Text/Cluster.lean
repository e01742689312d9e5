import Schemata.Text.ClusterTable
import Schemata.Text.ExtendTable

/-!
# User-perceived characters

A text falls into clusters: a base character with its marks, a syllable, a flag, a tied sequence of
pictographs, or a line end of two characters. Whether a character joins the cluster before it depends
on its class and on a small context: the last class, an open pictograph, a count of flag letters and
an open conjunct of consonants.
-/

namespace Schemata.Text

/-- What a character is to the cluster rules. -/
inductive ClusterClass where
  | carriageReturn
  | lineFeed
  | control
  | extending
  | joiner
  | spacing
  | prepended
  | regional
  | leadingJamo
  | vowelJamo
  | trailingJamo
  | openSyllable
  | closedSyllable
  | pictograph
  | other
deriving DecidableEq, Repr, Inhabited

def zeroWidthJoiner : Nat := 0x200D

/-- The zero-width non-joiner, the one extending character that ends a conjunct. -/
def zeroWidthNonJoiner : Nat := 0x200C

/-- The class of the code point `n` among the Korean syllables and their letters. -/
def koreanClass? (n : Nat) : Option ClusterClass :=
  if (0x1100 ≤ n ∧ n ≤ 0x115F) ∨ (0xA960 ≤ n ∧ n ≤ 0xA97C) then some .leadingJamo
  else if (0x1160 ≤ n ∧ n ≤ 0x11A7) ∨ (0xD7B0 ≤ n ∧ n ≤ 0xD7C6) then some .vowelJamo
  else if (0x11A8 ≤ n ∧ n ≤ 0x11FF) ∨ (0xD7CB ≤ n ∧ n ≤ 0xD7FB) then some .trailingJamo
  else if 0xAC00 ≤ n ∧ n ≤ 0xD7A3 then
    some (if (n - 0xAC00) % 28 = 0 then .openSyllable else .closedSyllable)
  else if n = 0x16D63 ∨ (0x16D67 ≤ n ∧ n ≤ 0x16D6A) then some .vowelJamo
  else none

def clusterClass (c : Char) : ClusterClass :=
  let n := c.toNat
  if n = 0x0D then .carriageReturn
  else if n = 0x0A then .lineFeed
  else if n < 0x20 then .control
  else if n < 0x7F then .other
  else if n = zeroWidthJoiner then .joiner
  else if 0x1F1E6 ≤ n ∧ n ≤ 0x1F1FF then .regional
  else if 0x1F3FB ≤ n ∧ n ≤ 0x1F3FF then .extending
  else if controlRanges.contains c then .control
  else if extendRanges.contains c then .extending
  else match koreanClass? n with
    | some k => k
    | none =>
      if spacingRanges.contains c then .spacing
      else if prependRanges.contains c then .prepended
      else if pictographRanges.contains c then .pictograph
      else .other

/-- How far a sequence that may tie two bases has come. -/
inductive Tie where
  | none
  | base
  | tied
deriving DecidableEq, Repr, Inhabited

/-- What the rules remember of the cluster so far. -/
structure ClusterContext where
  last : ClusterClass
  /-- A pictograph with its marks, `tied` once a joiner follows. -/
  pictographs : Tie
  /-- A consonant with its marks, `tied` once a linker follows. -/
  consonants : Tie
  /-- Whether the cluster ends in an odd number of flag letters. -/
  oddRegional : Bool

/-- How `c` of class `k` moves an open sequence of pictographs. -/
def Tie.afterPictographRule (t : Tie) (k : ClusterClass) : Tie :=
  match k with
  | .pictograph => .base
  | .extending => if t = .base then .base else .none
  | .joiner => if t = .base then .tied else .none
  | _ => .none

/-- How the character `c` moves an open conjunct. -/
def Tie.afterConsonantRule (t : Tie) (c : Char) (k : ClusterClass) : Tie :=
  if consonantRanges.contains c then .base
  else if t = .none then .none
  else if linkerRanges.contains c then .tied
  else if (k = .extending ∧ c.toNat ≠ zeroWidthNonJoiner) ∨ k = .joiner then t
  else .none

/-- The context after one more character of the cluster. -/
def ClusterContext.push (x : ClusterContext) (c : Char) : ClusterContext :=
  let k := clusterClass c
  { last := k
    pictographs := x.pictographs.afterPictographRule k
    consonants := if c.toNat < 0x80 then .none else x.consonants.afterConsonantRule c k
    oddRegional := k = .regional && !x.oddRegional }

/-- The context of a cluster that begins with `c`. -/
def ClusterContext.start (c : Char) : ClusterContext :=
  ClusterContext.push { last := .other, pictographs := .none, consonants := .none, oddRegional := false } c

/-- Whether a Korean letter or syllable continues the syllable before it. -/
def continuesSyllable : ClusterClass → ClusterClass → Bool
  | .leadingJamo, .leadingJamo | .leadingJamo, .vowelJamo
  | .leadingJamo, .openSyllable | .leadingJamo, .closedSyllable
  | .openSyllable, .vowelJamo | .openSyllable, .trailingJamo
  | .vowelJamo, .vowelJamo | .vowelJamo, .trailingJamo
  | .closedSyllable, .trailingJamo
  | .trailingJamo, .trailingJamo => true
  | _, _ => false

/-- Classes that no other character joins. -/
def ClusterClass.standsAlone : ClusterClass → Bool
  | .carriageReturn | .lineFeed | .control => true
  | _ => false

/-- Classes that attach to whatever stands before them. -/
def ClusterClass.attaches : ClusterClass → Bool
  | .extending | .joiner | .spacing => true
  | _ => false

/-- Whether `c` belongs to the cluster before it. -/
def ClusterContext.joins (x : ClusterContext) (c : Char) : Bool :=
  let k := clusterClass c
  if x.last == .carriageReturn && k == .lineFeed then true
  else if x.last.standsAlone || k.standsAlone then false
  else continuesSyllable x.last k
    || k.attaches
    || x.last == .prepended
    || x.pictographs == .tied && k == .pictograph
    || x.consonants == .tied && consonantRanges.contains c
    || x.oddRegional && k == .regional

/-- The clusters of the rest of a text, where `current` is the open cluster, last character first. -/
def clustersAfter (x : ClusterContext) (current : List Char) : List Char → List (List Char)
  | [] => [current.reverse]
  | c :: rest =>
    if x.joins c then clustersAfter (x.push c) (c :: current) rest
    else current.reverse :: clustersAfter (.start c) [c] rest

/-- The user-perceived characters of a text, in order. -/
def clusters : List Char → List (List Char)
  | [] => []
  | c :: rest => clustersAfter (.start c) [c] rest

end Schemata.Text
