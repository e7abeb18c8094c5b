/-!
# Reading integers

An integer is an optional sign and decimal digits, nothing else. A minus sign belongs to signed
kinds only. Of several faults the first from the left counts: a number may leave its range before
a later character turns out to be no digit.
-/

namespace ValueCoverage.Number

/-- Why a text is no integer of the wanted range. -/
inductive IntegerError where
  | empty
  | invalidDigit
  | tooLarge
  | tooSmall
deriving Repr, DecidableEq

def IntegerError.message : IntegerError → String
  | .empty => "cannot parse integer from empty string"
  | .invalidDigit => "invalid digit found in string"
  | .tooLarge => "number too large to fit in target type"
  | .tooSmall => "number too small to fit in target type"

/-- The digits as a number of at most `limit`, with `acc` read so far. -/
def readDigits (limit : Nat) (overflow : IntegerError) : List Char → Nat → Except IntegerError Nat
  | [], acc => .ok acc
  | c :: rest, acc =>
    if c.isDigit then
      let next := acc * 10 + (c.toNat - '0'.toNat)
      if next ≤ limit then readDigits limit overflow rest next else .error overflow
    else .error .invalidDigit

/-- Reads a natural number of at most `limit`; a plus sign is allowed. -/
def readNatural (limit : Nat) (s : String) : Except IntegerError Nat :=
  match s.toList with
  | [] => .error .empty
  | ['+'] => .error .invalidDigit
  | '+' :: ds => readDigits limit .tooLarge ds 0
  | ds => readDigits limit .tooLarge ds 0

/-- Reads an integer from `-(limit + 1)` to `limit`. -/
def readSigned (limit : Nat) (s : String) : Except IntegerError Int :=
  match s.toList with
  | [] => .error .empty
  | ['+'] | ['-'] => .error .invalidDigit
  | '+' :: ds => (readDigits limit .tooLarge ds 0).map Int.ofNat
  | '-' :: ds => (readDigits (limit + 1) .tooSmall ds 0).map fun n => -(n : Int)
  | ds => (readDigits limit .tooLarge ds 0).map Int.ofNat

end ValueCoverage.Number
