import ValueCoverage.Number.Binary

/-!
# Shortest decimals

The fewest decimal digits that read back to a given binary number. The decimals that read back are
those in the interval of reals that round to the number. For each count of digits the two
neighbours of the number on that decimal grid are tried; the first grid with a neighbour in the
interval wins, of two such neighbours the nearer, and of two equally near ones the larger.
-/

namespace ValueCoverage.Number

/-- Ten to the power of `n`. -/
def tenTo (n : Nat) : Nat := Nat.pow 10 n

/-- A positive decimal: the digits `d₁d₂…dₙ` stand for `0.d₁d₂…dₙ · 10 ^ point`. -/
structure Decimal where
  digits : List Char
  point : Int

/-- A positive fraction with one denominator for a number and the ends of its interval. -/
structure Interval where
  low : Nat
  value : Nat
  high : Nat
  den : Nat
  closed : Bool

/-- The reals that round to the number: halfway to each neighbour, where the neighbour below a power
of two is nearer. The ends belong to it if the significand is even. -/
def Interval.around (f : Format) (x : Scaled) : Interval :=
  let narrow := x.significand = f.fractionSize ∧ f.leastExponent < x.exponent
  let up := twoTo (x.exponent - 2).toNat
  { low := (4 * x.significand - if narrow then 1 else 2) * up
    value := 4 * x.significand * up
    high := (4 * x.significand + 2) * up
    den := twoTo (2 - x.exponent).toNat
    closed := x.significand % 2 = 0 }

/-- Whether `c · num / den` lies in the interval. -/
def Interval.contains (i : Interval) (c num den : Nat) : Bool :=
  let mid := c * num * i.den
  if i.closed then decide (i.low * den ≤ mid ∧ mid ≤ i.high * den)
  else decide (i.low * den < mid ∧ mid < i.high * den)

/-- The decimal digits of a number. -/
def digitsOf (n : Nat) : List Char := Nat.toDigits 10 n

/-- Enough places to see the first digit of every positive number of the formats. -/
def placesSeen : Nat := 350

/-- The exponent for which `num / den` lies between a tenth, included, and one, times the power of
ten with that exponent. -/
def pointOf (num den : Nat) : Int :=
  ((digitsOf (num * tenTo placesSeen / den)).length : Int) - placesSeen

/-- The multiple of `10 ^ unit` that stands for the number in the interval, if a neighbour on the
grid lies in it. -/
def Interval.neighbour? (i : Interval) (unit : Int) : Option Nat :=
  let num := tenTo unit.toNat
  let den := tenTo (-unit).toNat
  let below := i.value * den / (num * i.den)
  match i.contains below num den, i.contains (below + 1) num den with
  | false, false => none
  | true, false => some below
  | false, true => some (below + 1)
  | true, true =>
    let gap := i.value * den - below * (num * i.den)
    some (if 2 * gap < num * i.den then below else below + 1)

/-- Tries grids of more and more digits; the last one is taken as it is. -/
def Interval.firstHit (i : Interval) (point : Int) : (tries count : Nat) → Nat × Int
  | 0, count =>
    (i.value * tenTo (count - point).toNat / (tenTo (point - count).toNat * i.den), point - count)
  | tries + 1, count =>
    match i.neighbour? (point - count) with
    | some c => (c, point - count)
    | none => i.firstHit point tries (count + 1)

/-- Drops the zeros at the end. -/
def dropTrailingZeros (ds : List Char) : List Char :=
  (ds.reverse.dropWhile (· = '0')).reverse

/-- The fewest digits that read back to a positive number of the format, which never needs more
than seventeen. -/
def shortest (f : Format) (x : Scaled) : Decimal :=
  let i := Interval.around f x
  let hit := i.firstHit (pointOf i.value i.den) 17 1
  let ds := digitsOf hit.1
  { digits := dropTrailingZeros ds, point := hit.2 + ds.length }

end ValueCoverage.Number
