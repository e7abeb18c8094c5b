/-!
# Blank characters

The characters with the Unicode property White_Space, and trimming by them. A line of a coverage
file that holds nothing else is skipped, and rules, options and codec specifications are trimmed
before they are read.
-/

namespace ValueCoverage.Text

/-- The ranges of code points that are white space, first and last included. -/
def blankRanges : List (Nat × Nat) :=
  [(0x9, 0xD), (0x20, 0x20), (0x85, 0x85), (0xA0, 0xA0), (0x1680, 0x1680), (0x2000, 0x200A),
   (0x2028, 0x2029), (0x202F, 0x202F), (0x205F, 0x205F), (0x3000, 0x3000)]

/-- Whether a character is white space. -/
def isBlank (c : Char) : Bool :=
  blankRanges.any fun r => decide (r.1 ≤ c.toNat ∧ c.toNat ≤ r.2)

/-- Drops the blank characters at both ends. -/
def trimChars (cs : List Char) : List Char :=
  ((cs.dropWhile isBlank).reverse.dropWhile isBlank).reverse

/-- Drops the blank characters at both ends. -/
def trim (s : String) : String :=
  String.ofList (trimChars s.toList)

/-- Whether a line holds blank characters only. -/
def isBlankLine (cs : List Char) : Bool :=
  cs.all isBlank

/-- The property covers all that the ASCII test calls white space. -/
theorem isBlank_of_isWhitespace {c : Char} (h : c.isWhitespace = true) : isBlank c = true := by
  simp only [Char.isWhitespace, Bool.or_eq_true, decide_eq_true_eq] at h
  rcases h with ((rfl | rfl) | rfl) | rfl <;> decide

@[simp] theorem trimChars_nil : trimChars [] = [] := rfl

end ValueCoverage.Text
