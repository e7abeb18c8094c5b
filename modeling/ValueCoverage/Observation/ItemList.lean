import ValueCoverage.Text.Split

/-!
# Item lists

An observation takes one line: its items in brackets with a comma and a space between them. Commas,
backslashes and line breaks inside an item are escaped, and an empty item has an escape of its own,
so that no items and one empty item differ. Reading takes any escape; the space after a comma may
be missing.
-/

namespace ValueCoverage.ItemList

/-- A character inside an item. -/
def escapeChar (c : Char) : List Char :=
  if c = '\\' then ['\\', '\\']
  else if c = ',' then ['\\', ',']
  else if c = '\n' then ['\\', 'n']
  else if c = '\r' then ['\\', 'r']
  else [c]

/-- An item as it is written. -/
def escape (item : List Char) : List Char :=
  if item.isEmpty then ['\\', 'e'] else item.flatMap escapeChar

/-- Items that are escaped already, in brackets. -/
def bracket (items : List (List Char)) : List Char :=
  '[' :: Text.joinWith [',', ' '] items ++ [']']

/-- Why a text is no item list. -/
inductive Fault where
  | noBrackets
  | danglingEscape
deriving Repr, DecidableEq

/-- What an escape stands for. -/
def unescape (c : Char) : List Char :=
  if c = 'n' then ['\n'] else if c = 'r' then ['\r'] else if c = 'e' then [] else [c]

/-- Reads what stands in the brackets; the current item and the finished ones are kept back to
front. -/
def readItems : List Char → (item : List Char) → (done : List (List Char)) →
    Except Fault (List (List Char))
  | [], item, done => .ok (item.reverse :: done).reverse
  | ['\\'], _, _ => .error .danglingEscape
  | '\\' :: c :: rest, item, done => readItems rest (unescape c ++ item) done
  | ',' :: ' ' :: rest, item, done => readItems rest [] (item.reverse :: done)
  | ',' :: rest, item, done => readItems rest [] (item.reverse :: done)
  | c :: rest, item, done => readItems rest (c :: item) done

/-- The items of a bracketed text, with their escapes resolved. -/
def split (text : List Char) : Except Fault (List (List Char)) :=
  match (Text.dropPrefix? ['['] text).bind (Text.dropSuffix? [']']) with
  | none => .error .noBrackets
  | some [] => .ok []
  | some inner => readItems inner [] []

end ValueCoverage.ItemList
