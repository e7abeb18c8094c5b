import ValueCoverage.Number.Shortest

/-!
# Text of floating-point numbers

Numbers are written with the fewest digits that read back. A number from one ten-thousandth up to,
but not including, ten to the sixteenth is written in places with at least one digit after the
point; others as a digit, further digits and a power of ten. Reading takes a sign, one of the words
for infinity and for what is not a number, or digits with an optional point and exponent, and
rounds to the nearest number. An exponent is read up to its sixth significant digit at most, which
matters only for numbers with so many zeros that they make up for it.
-/

namespace ValueCoverage.Number

/-- Whether a decimal is written in places. -/
def Decimal.isPlain (d : Decimal) : Bool :=
  decide (-3 ≤ d.point ∧ d.point ≤ 16)

/-- A decimal written in places, with at least one digit after the point. -/
def Decimal.plain (d : Decimal) : List Char :=
  let zeros (n : Nat) : List Char := List.replicate n '0'
  if d.point ≤ 0 then '0' :: '.' :: (zeros (-d.point).toNat ++ d.digits)
  else
    let whole := d.digits.take d.point.toNat
    let fraction := d.digits.drop d.point.toNat
    whole ++ zeros (d.point.toNat - whole.length) ++
      '.' :: (if fraction.isEmpty then ['0'] else fraction)

/-- A decimal written as a digit, further digits and a power of ten. -/
def Decimal.scientific (d : Decimal) : List Char :=
  let power := d.point - 1
  let exponent := (if power < 0 then ['-'] else []) ++ digitsOf power.natAbs
  match d.digits with
  | [] => []
  | [first] => first :: 'e' :: exponent
  | first :: more => first :: '.' :: more ++ 'e' :: exponent

/-- The text of a positive decimal. -/
def Decimal.text (d : Decimal) : List Char :=
  if d.isPlain then d.plain else d.scientific

/-- The words for values without digits. -/
structure Words where
  infinity : String
  nan : String

/-- The text of the number with the given bits. -/
def floatText (f : Format) (words : Words) (bits : Nat) : String :=
  match decode f bits with
  | .nan => words.nan
  | .infinite negative => (if negative then "-" else "") ++ words.infinity
  | .finite negative x =>
    (if negative then "-" else "") ++
      if x.significand = 0 then "0.0" else String.ofList (shortest f x).text

/-- The digits at the front and what follows them. -/
def takeDigits (cs : List Char) : List Char × List Char :=
  cs.span Char.isDigit

/-- The number that decimal digits spell. -/
def digitsValue (ds : List Char) : Nat :=
  ds.foldl (fun n d => n * 10 + (d.toNat - '0'.toNat)) 0

/-- From here on the further digits of an exponent are passed over. -/
def exponentLimit : Nat := 0x10000

/-- The exponent that decimal digits spell, as far as it is read: digits count while what stands
before them is below the limit. -/
def exponentValue (ds : List Char) : Nat :=
  ds.foldl (fun n d => if n < exponentLimit then n * 10 + (d.toNat - '0'.toNat) else n) 0

/-- The exponent after the digits: none, or the mark, an optional sign and digits, with nothing
after them. -/
def readExponent : List Char → Option Int
  | [] => some 0
  | mark :: cs =>
    if mark = 'e' ∨ mark = 'E' then
      let (negative, ds) :=
        match cs with
        | '-' :: ds => (true, ds)
        | '+' :: ds => (false, ds)
        | ds => (false, ds)
      if ds.isEmpty || !ds.all Char.isDigit then none
      else some (if negative then -(exponentValue ds : Int) else exponentValue ds)
    else none

/-- Beyond this power of ten every number of the formats is infinite, and beyond its negative every
number is zero. -/
def decimalRange : Int := 400

/-- The bits nearest to the positive number `0.d₁d₂… · 10 ^ point` whose first digit is not zero. -/
def roundDecimal (f : Format) (ds : List Char) (point : Int) : Nat :=
  if point > decimalRange then f.infinityBits
  else if point < -decimalRange then 0
  else
    let unit := point - ds.length
    roundRatio f (digitsValue ds * tenTo unit.toNat) (tenTo (-unit).toNat)

/-- The digits without the zeros at their end, which say nothing behind the point. -/
def dropLastZeros (ds : List Char) : List Char :=
  (ds.reverse.dropWhile (· = '0')).reverse

/-- The bits of an unsigned number in decimal notation. -/
def readMagnitude (f : Format) (cs : List Char) : Option Nat := do
  let (whole, rest) := takeDigits cs
  let (fraction, rest) :=
    match rest with
    | '.' :: more => takeDigits more
    | _ => ([], rest)
  if whole.isEmpty && fraction.isEmpty then none
  else
    let exponent ← readExponent rest
    let ds := whole ++ fraction
    let significant := ds.dropWhile (· = '0')
    if significant.isEmpty then some 0
    else
      let skipped := ds.length - significant.length
      some (roundDecimal f (dropLastZeros significant) (whole.length - skipped + exponent))

/-- The bits of the number that a text spells. -/
def readFloat (f : Format) (s : String) : Option Nat :=
  let (negative, cs) :=
    match s.toList with
    | '-' :: cs => (true, cs)
    | '+' :: cs => (false, cs)
    | cs => (false, cs)
  let small := String.ofList (cs.map Char.toLower)
  let magnitude :=
    if small = "inf" ∨ small = "infinity" then some f.infinityBits
    else if small = "nan" then some f.nanBits
    else readMagnitude f cs
  magnitude.map fun bits => if negative then bits + f.signBit else bits

end ValueCoverage.Number
