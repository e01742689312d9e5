/-!
# Binary floating-point numbers

A finite number of 64 bits is a sign, a mantissa below `2^53` and a power of two. All arithmetic here
is exact on natural numbers and rounds once, to the nearest number and to the even one of two equally
near. The text of a number has the fewest digits that read back as the same number.
-/

namespace Schemata

/-- The finite number `± mantissa * 2 ^ exponent`. -/
structure Double where
  negative : Bool
  mantissa : Nat
  exponent : Int
deriving DecidableEq, Repr, Inhabited

namespace Double

def minExponent : Int := -1074

def maxExponent : Int := 971

def zero (negative : Bool) : Double :=
  ⟨negative, 0, minExponent⟩

def isZero (x : Double) : Bool :=
  x.mantissa == 0

/-- The quotient rounded to the nearest integer, a half to the even neighbour. -/
def roundedQuotient (num den : Nat) : Nat :=
  let q := num / den
  let r := num % den
  if 2 * r < den then q else if den < 2 * r then q + 1 else if q % 2 = 0 then q else q + 1

/-- The fraction `num / den` in units of `2 ^ e`. -/
def inUnits (num den : Nat) (e : Int) : Nat × Nat :=
  if 0 ≤ e then (num, den * Nat.pow 2 e.toNat) else (num * Nat.pow 2 (-e).toNat, den)

/-- The number nearest to `num / den`, or none when that is beyond the greatest finite number. -/
def nearest (negative : Bool) (num den : Nat) : Option Double :=
  if num = 0 then some (zero negative)
  else
    let guess := max minExponent ((Nat.log2 num : Int) - (Nat.log2 den : Int) - 53)
    let wide := inUnits num den guess
    let e := if Nat.pow 2 53 ≤ wide.1 / wide.2 then guess + 1 else guess
    let units := inUnits num den e
    let m := roundedQuotient units.1 units.2
    let x : Double := if m = Nat.pow 2 53 then ⟨negative, Nat.pow 2 52, e + 1⟩ else ⟨negative, m, e⟩
    if maxExponent < x.exponent then none else some x

def magnitude (x : Double) : Nat × Nat :=
  if 0 ≤ x.exponent then (x.mantissa * Nat.pow 2 x.exponent.toNat, 1)
  else (x.mantissa, Nat.pow 2 (-x.exponent).toNat)

def mul? (x y : Double) : Option Double :=
  let a := x.magnitude
  let b := y.magnitude
  nearest (x.negative != y.negative) (a.1 * b.1) (a.2 * b.2)

/-- The rounded quotient, or none beyond the finite numbers. The divisor is not zero. -/
def div? (x y : Double) : Option Double :=
  let a := x.magnitude
  let b := y.magnitude
  nearest (x.negative != y.negative) (a.1 * b.2) (a.2 * b.1)

def ofNat (n : Nat) : Double :=
  (nearest false n 1).getD (zero false)

def powerOfTen (n : Nat) : Double :=
  ofNat (Nat.pow 10 n)

/-- `x` divided by a power of ten, in steps of at most `10 ^ 308`. -/
def dividedByPowerOfTen (x : Double) (n : Nat) : Double :=
  if h : n ≤ 308 then (x.div? (powerOfTen n)).getD (zero x.negative)
  else if x.isZero then x
  else dividedByPowerOfTen ((x.div? (powerOfTen 308)).getD (zero x.negative)) (n - 308)
termination_by n
decreasing_by omega

/-- `significand * 10 ^ exponent`, each factor rounded first, or none beyond the finite numbers. -/
def ofDecimal? (negative : Bool) (significand : Nat) (exponent : Int) : Option Double :=
  let f := { ofNat significand with negative := negative }
  if 0 ≤ exponent then
    if exponent ≤ 308 then f.mul? (powerOfTen exponent.toNat)
    else if f.isZero then some f
    else none
  else some (f.dividedByPowerOfTen (-exponent).toNat)

/-! ### Shortest digits -/

/-- Digits of a decimal number `digits * 10 ^ exponent`. -/
structure Decimal where
  digits : Nat
  exponent : Int
deriving DecidableEq, Repr

/-- The open or closed interval of fractions with one denominator that round to one number. -/
structure Rounding where
  low : Nat
  mid : Nat
  high : Nat
  den : Nat
  /-- Whether the ends belong to the interval. -/
  closed : Bool

/-- The fractions that round to `x`: half-way to either neighbour, the ends only for an even
    mantissa. Below a power of two the lower neighbour is twice as near. -/
def rounding (x : Double) : Rounding :=
  let low := if x.mantissa = Nat.pow 2 52 ∧ minExponent < x.exponent then 4 * x.mantissa - 1 else 4 * x.mantissa - 2
  let scale := if 2 ≤ x.exponent then Nat.pow 2 (x.exponent - 2).toNat else 1
  { low := low * scale
    mid := 4 * x.mantissa * scale
    high := (4 * x.mantissa + 2) * scale
    den := if 2 ≤ x.exponent then 1 else Nat.pow 2 (2 - x.exponent).toNat
    closed := x.mantissa % 2 == 0 }

def Rounding.holds (r : Rounding) (num den : Nat) : Bool :=
  if r.closed then r.low * den ≤ num * r.den && num * r.den ≤ r.high * den
  else r.low * den < num * r.den && num * r.den < r.high * den

def decimalFraction (d : Nat) (e : Int) : Nat × Nat :=
  if 0 ≤ e then (d * Nat.pow 10 e.toNat, 1) else (d, Nat.pow 10 (-e).toNat)

def digitCount (n : Nat) : Nat :=
  (Nat.toDigits 10 n).length

/-- The least `t` of `start, start + 1, …` with `den ≤ num * 10 ^ t`, looking `fuel` steps ahead. -/
def leadingZeros (num den : Nat) : Nat → Nat → Nat
  | 0, start => start
  | fuel + 1, start => if den ≤ num * Nat.pow 10 start then start else leadingZeros num den fuel (start + 1)

/-- The power of ten of the leading digit of a fraction that is not zero. -/
def leadingPower (num den : Nat) : Int :=
  if den ≤ num then (digitCount (num / den) : Int) - 1 else -(leadingZeros num den 400 1 : Int)

/-- The decimal with step `10 ^ e` that rounds to the number, the nearer of two. -/
def Rounding.onGrid? (r : Rounding) (e : Int) : Option Nat :=
  let step := decimalFraction 1 e
  let below := r.mid * step.2 / (r.den * step.1)
  let holds (d : Nat) := let f := decimalFraction d e; r.holds f.1 f.2
  match holds below, holds (below + 1) with
  | false, false => none
  | true, false => some below
  | false, true => some (below + 1)
  | true, true =>
    let mid2 := 2 * r.mid * step.2
    let half := (2 * below + 1) * step.1 * r.den
    if mid2 < half then some below
    else if half < mid2 then some (below + 1)
    else if below % 2 = 0 then some below else some (below + 1)

/-- The first grid, coarsest first, that holds a decimal of the number. -/
def Rounding.shortestFrom (r : Rounding) (power : Int) : Nat → Nat → Option Decimal
  | 0, _ => none
  | fuel + 1, places =>
    let e := power - places + 1
    match r.onGrid? e with
    | some d => some ⟨d, e⟩
    | none => r.shortestFrom power fuel (places + 1)

/-- Moves the zeros at the end of the digits into the exponent. -/
def Decimal.trimmed (d : Decimal) : Decimal :=
  if d.digits ≠ 0 ∧ d.digits % 10 = 0 then Decimal.trimmed ⟨d.digits / 10, d.exponent + 1⟩ else d
termination_by d.digits
decreasing_by omega

/-- The decimal with the fewest digits that rounds to the magnitude of `x`, the nearest of those.
    Seventeen digits always suffice. -/
def shortest (x : Double) : Decimal :=
  if x.isZero then ⟨0, 0⟩
  else
    let r := x.rounding
    ((r.shortestFrom (leadingPower r.mid r.den) 17 1).getD ⟨0, 0⟩).trimmed

/-! ### Text -/

/-- The exponents of the leading digit that are written without an exponent. -/
def positional (power : Int) : Bool :=
  -5 ≤ power && power ≤ 15

/-- The magnitude in text: with a point and at least one digit on both sides of it where the exponent
    is small, else with one digit before the point and a signed exponent. -/
def magnitudeText (d : Decimal) : String :=
  let ds := Nat.toDigits 10 d.digits
  let power := d.exponent + ds.length - 1
  if d.digits = 0 then "0.0"
  else if positional power then
    if power < 0 then
      String.ofList (['0', '.'] ++ List.replicate (-power - 1).toNat '0' ++ ds)
    else
      let whole := (power + 1).toNat
      let fraction := ds.drop whole
      String.ofList (ds.take whole ++ List.replicate (whole - ds.length) '0' ++ ['.']
        ++ (if fraction.isEmpty then ['0'] else fraction))
  else
    let fraction := ds.drop 1
    String.ofList (ds.take 1 ++ (if fraction.isEmpty then [] else '.' :: fraction)
      ++ ['e', if power < 0 then '-' else '+'] ++ Nat.toDigits 10 power.natAbs)

def text (x : Double) : String :=
  (if x.negative then "-" else "") ++ magnitudeText x.shortest

end Double

end Schemata
