import ValueCoverage.Text.Unshown

/-!
# Quoted text

How a message shows a text or a single character: in quotes, with the quote, the backslash and the
characters that a reader would not see as they are escaped.
-/

namespace ValueCoverage.Text

/-- A character inside quotes of the given kind. -/
def escaped (quote c : Char) : List Char :=
  if c = '\x00' then ['\\', '0']
  else if c = '\t' then ['\\', 't']
  else if c = '\n' then ['\\', 'n']
  else if c = '\r' then ['\\', 'r']
  else if c = quote ∨ c = '\\' then ['\\', c]
  else if isUnshown c then ['\\', 'u', '\x7b'] ++ Nat.toDigits 16 c.toNat ++ ['\x7d']
  else [c]

/-- A text in double quotes. -/
def quoted (s : String) : String :=
  String.ofList ('"' :: s.toList.flatMap (escaped '"') ++ ['"'])

/-- A character in single quotes. -/
def quotedChar (c : Char) : String :=
  String.ofList ('\x27' :: escaped '\x27' c ++ ['\x27'])

end ValueCoverage.Text
