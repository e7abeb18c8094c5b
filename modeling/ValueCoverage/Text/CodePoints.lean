/-!
# Sets of code points

A set of code points is stored as the points at which membership changes, in rising order: a code
point belongs to the set if an odd number of changes lie at or below it.
-/

namespace ValueCoverage.Text

/-- A set of code points, by the points at which membership changes, in rising order. -/
structure CodePoints where
  changes : Array Nat

namespace CodePoints

/-- How many of the changes lie at or below a code point, if the first `low` do and those from
`high` on do not. The interval between is halved `fuel` times at most. -/
def countUpTo (s : CodePoints) (point : Nat) : (fuel low high : Nat) → Nat
  | 0, low, _ => low
  | fuel + 1, low, high =>
    if low < high then
      let middle := (low + high) / 2
      if s.changes.getD middle 0 ≤ point then s.countUpTo point fuel (middle + 1) high
      else s.countUpTo point fuel low middle
    else low

/-- Whether a code point belongs to the set. -/
def contains (s : CodePoints) (point : Nat) : Bool :=
  s.countUpTo point s.changes.size 0 s.changes.size % 2 = 1

end CodePoints

end ValueCoverage.Text
