/-!
# Cutting text

Cutting a list of characters at a separator, and taking a known start or end away. `splitOn` never
loses a character: joining its pieces with the separator gives the text back.
-/

namespace ValueCoverage.Text

/-- The pieces between the occurrences of `sep`; there is always at least one. -/
def splitOn (sep : Char) (cs : List Char) : List (List Char) :=
  go cs [] []
where
  /-- Carries the current piece and the finished pieces, both back to front. -/
  go : List Char → List Char → List (List Char) → List (List Char)
    | [], piece, done => (piece.reverse :: done).reverse
    | c :: rest, piece, done =>
      if c = sep then go rest [] (piece.reverse :: done) else go rest (c :: piece) done

/-- What stands before and after the first `sep`. -/
def splitFirst (sep : Char) (cs : List Char) : Option (List Char × List Char) :=
  match cs.dropWhile (· != sep) with
  | [] => none
  | _ :: rest => some (cs.takeWhile (· != sep), rest)

/-- The text after `start`, if it begins so. -/
def dropPrefix? : (start cs : List Char) → Option (List Char)
  | [], cs => some cs
  | _ :: _, [] => none
  | p :: ps, c :: cs => if p = c then dropPrefix? ps cs else none

/-- The text before `ending`, if it ends so. -/
def dropSuffix? (ending cs : List Char) : Option (List Char) :=
  (dropPrefix? ending.reverse cs.reverse).map List.reverse

/-- Whether `s` begins with `start`. -/
def startsWith (start s : String) : Bool :=
  (dropPrefix? start.toList s.toList).isSome

/-- The pieces with `sep` between them. -/
def joinWith (sep : List Char) : List (List Char) → List Char
  | [] => []
  | [piece] => piece
  | piece :: rest => piece ++ sep ++ joinWith sep rest

/-- Replaces every `old` by `new`. -/
def replaceChar (old new : Char) (s : String) : String :=
  String.ofList (s.toList.map fun c => if c = old then new else c)

/-- The binary name of a class, with points, from its internal name, with slashes. -/
def pointed (internal : String) : String :=
  replaceChar '/' '.' internal

/-- The letters `A` to `Z` made small, all else kept. -/
def lowerAscii (s : String) : String :=
  String.ofList (s.toList.map Char.toLower)

theorem dropPrefix?_eq_some_iff {start cs rest : List Char} :
    dropPrefix? start cs = some rest ↔ cs = start ++ rest := by
  induction start generalizing cs with
  | nil => simp [dropPrefix?, eq_comm]
  | cons p ps ih =>
    cases cs with
    | nil => simp [dropPrefix?]
    | cons c cs =>
      by_cases h : p = c
      · subst h; simp [dropPrefix?, ih]
      · simp [dropPrefix?, h, Ne.symm h]

theorem splitFirst_eq_none_iff {sep : Char} {cs : List Char} :
    splitFirst sep cs = none ↔ sep ∉ cs := by
  induction cs with
  | nil => simp [splitFirst]
  | cons c cs ih =>
    by_cases h : c = sep
    · subst h; simp [splitFirst]
    · have : splitFirst sep (c :: cs) = none ↔ splitFirst sep cs = none := by
        simp only [splitFirst, List.dropWhile_cons, bne_iff_ne, ne_eq, h, not_false_eq_true,
          if_true]
        cases cs.dropWhile (· != sep) <;> simp
      simp [this, ih, Ne.symm h]

theorem dropSuffix?_append (cs ending : List Char) :
    dropSuffix? ending (cs ++ ending) = some cs := by
  have h : dropPrefix? ending.reverse (cs ++ ending).reverse = some cs.reverse :=
    dropPrefix?_eq_some_iff.2 List.reverse_append
  rw [dropSuffix?, h, Option.map_some, List.reverse_reverse]

theorem splitFirst_append {sep : Char} {front : List Char} (h : sep ∉ front) (rest : List Char) :
    splitFirst sep (front ++ sep :: rest) = some (front, rest) := by
  have hall : ∀ c ∈ front, (c != sep) = true := by
    intro c hc
    rw [bne_iff_ne]
    rintro rfl
    exact h hc
  simp [splitFirst, List.dropWhile_append_of_pos hall, List.takeWhile_append_of_pos hall]

/-- What is cut at the first separator was one text before. -/
theorem eq_of_splitFirst {sep : Char} {cs front rest : List Char}
    (h : splitFirst sep cs = some (front, rest)) : sep ∉ front ∧ cs = front ++ sep :: rest := by
  by_cases hmem : sep ∈ cs
  · obtain ⟨front', rest', rfl, hfront⟩ := List.eq_append_cons_of_mem hmem
    rw [splitFirst_append hfront] at h
    cases h
    exact ⟨hfront, rfl⟩
  · rw [splitFirst_eq_none_iff.2 hmem] at h
    cases h

end ValueCoverage.Text
