/-!
# Binary floating point

A finite number of a binary format is a whole significand times a power of two. `decode` reads the
two off the bits and `roundRatio` finds the bits of the number nearest to a given fraction; ties go
to the even significand.
-/

namespace ValueCoverage.Number

/-- Two to the power of `n`. -/
def twoTo (n : Nat) : Nat := Nat.pow 2 n

/-- A binary interchange format: how many bits the significand has, its leading bit included, how
many bits the exponent field has, and the least exponent of a unit in the last place. -/
structure Format where
  precision : Nat
  exponentBits : Nat
  leastExponent : Int

/-- Single precision. -/
def Format.single : Format := ⟨24, 8, -149⟩

/-- Double precision. -/
def Format.double : Format := ⟨53, 11, -1074⟩

namespace Format

/-- One more than the largest stored fraction. -/
def fractionSize (f : Format) : Nat := twoTo (f.precision - 1)

/-- The exponent field of infinities and of what is not a number. -/
def topExponent (f : Format) : Nat := twoTo f.exponentBits - 1

/-- The bits of positive infinity. -/
def infinityBits (f : Format) : Nat := f.topExponent * f.fractionSize

/-- The sign bit alone. -/
def signBit (f : Format) : Nat := twoTo f.exponentBits * f.fractionSize

/-- The bits of the quiet value that is not a number. -/
def nanBits (f : Format) : Nat := f.infinityBits + f.fractionSize / 2

end Format

/-- A positive number as a whole significand times a power of two. -/
structure Scaled where
  significand : Nat
  exponent : Int

/-- What the bits of a format stand for; the flag tells a negative sign. -/
inductive Decoded where
  | nan
  | infinite (negative : Bool)
  | finite (negative : Bool) (value : Scaled)

/-- Reads the bits of a format. -/
def decode (f : Format) (bits : Nat) : Decoded :=
  let negative := decide (f.signBit ≤ bits)
  let magnitude := bits % f.signBit
  let field := magnitude / f.fractionSize
  let fraction := magnitude % f.fractionSize
  if field = f.topExponent then
    if fraction = 0 then .infinite negative else .nan
  else if field = 0 then .finite negative ⟨fraction, f.leastExponent⟩
  else .finite negative ⟨fraction + f.fractionSize, f.leastExponent + (field - 1 : Nat)⟩

/-- The quotient rounded to the nearest whole number, a tie to the even one. -/
def roundHalfEven (num den : Nat) : Nat :=
  let low := num / den
  let twice := 2 * (num % den)
  if twice < den then low
  else if den < twice then low + 1
  else low + low % 2

/-- The bits of the positive number of the format nearest to `num / den`; past the largest finite
one they are those of infinity. Both arguments are positive. -/
def roundRatio (f : Format) (num den : Nat) : Nat :=
  -- An exponent for which the significand has its full length or one bit too many.
  let guess : Int := (num.log2 : Int) - den.log2 - f.precision
  let fit (e : Int) : Nat × Nat :=
    if 0 ≤ e then (num, den * twoTo e.toNat) else (num * twoTo (-e).toNat, den)
  let e := if (fit guess).1 < twoTo f.precision * (fit guess).2 then guess else guess + 1
  let e := max e f.leastExponent
  let significand := roundHalfEven (fit e).1 (fit e).2
  min ((e - f.leastExponent).toNat * f.fractionSize + significand) f.infinityBits

end ValueCoverage.Number
