import Mathlib.Data.List.TakeWhile
import ValueCoverage.Text.Blank
import ValueCoverage.Text.Split

/-!
# What is joined is cut, and what is padded is trimmed

Pieces without a separator come back from the text that joins them, and a text without blanks at its
ends comes back from between any blanks.
-/

namespace ValueCoverage.Text

/-! ## Blanks around a text -/

/-- No blank stands at either end. -/
structure Bare (s : List Char) : Prop where
  head : s.head?.any isBlank = false
  last : s.getLast?.any isBlank = false

instance (s : List Char) : Decidable (Bare s) :=
  decidable_of_iff (s.head?.any isBlank = false ∧ s.getLast?.any isBlank = false)
    ⟨fun h => ⟨h.1, h.2⟩, fun h => ⟨h.head, h.last⟩⟩

/-- The text is `s` with blanks in front and behind, or without. -/
inductive Padded (s : List Char) : List Char → Prop where
  | mk {front back : List Char} (hfront : isBlankLine front) (hback : isBlankLine back) :
    Padded s (front ++ s ++ back)

section Blanks

variable {s front back text : List Char}

theorem not_mem_of_isBlankLine {c : Char} (h : isBlankLine s) (hc : isBlank c = false) : c ∉ s :=
  fun hmem => by simp [List.all_eq_true.1 h c hmem] at hc

theorem dropWhile_isBlank_append (hfront : isBlankLine front) :
    (front ++ s).dropWhile isBlank = s.dropWhile isBlank :=
  List.dropWhile_append_of_pos (List.all_eq_true.1 hfront)

theorem dropWhile_isBlank (hfront : isBlankLine front) (hs : s.head?.any isBlank = false) :
    (front ++ s).dropWhile isBlank = s := by
  rw [dropWhile_isBlank_append hfront]
  cases s with
  | nil => rfl
  | cons c cs => rw [List.dropWhile_cons_of_neg (by simpa using hs)]

theorem isBlankLine_reverse (h : isBlankLine s) : isBlankLine s.reverse := by
  rwa [isBlankLine, List.all_reverse]

/-- Trimming finds what stands between blanks. -/
theorem Padded.trimChars_eq (h : Padded s text) (hs : Bare s) : trimChars text = s := by
  obtain @⟨front, back, hfront, hback⟩ := h
  have hlast : s.reverse.head?.any isBlank = false := by
    rw [List.head?_reverse]
    exact hs.last
  rw [trimChars, List.append_assoc]
  cases s with
  | nil =>
    have hblank := dropWhile_isBlank (s := []) hback rfl
    rw [List.append_nil] at hblank
    rw [List.nil_append, dropWhile_isBlank_append hfront, hblank]
    rfl
  | cons c cs =>
    have hhead : ((c :: cs) ++ back).head?.any isBlank = false := hs.head
    rw [dropWhile_isBlank hfront hhead, List.reverse_append,
      dropWhile_isBlank (isBlankLine_reverse hback) hlast, List.reverse_reverse]

theorem padded_append (s : List Char) (hback : isBlankLine back) : Padded s (s ++ back) :=
  Padded.mk (s := s) (rfl : isBlankLine []) hback

theorem append_padded (s : List Char) (hfront : isBlankLine front) : Padded s (front ++ s) := by
  have h := Padded.mk (s := s) hfront (rfl : isBlankLine [])
  rwa [List.append_nil] at h

theorem Padded.self (s : List Char) : Padded s s := append_padded s (rfl : isBlankLine [])

theorem Bare.trimChars_eq (hs : Bare s) : trimChars s = s := (Padded.self s).trimChars_eq hs

theorem bare_of_no_blank (h : s.any isBlank = false) : Bare s := by
  rw [List.any_eq_false] at h
  constructor
  · cases hs : s.head? with
    | none => rfl
    | some c => simpa using h c (List.mem_of_head? hs)
  · cases hs : s.getLast? with
    | none => rfl
    | some c => simpa using h c (List.mem_of_getLast? hs)

/-- Only the ends count. -/
theorem Bare.append {s t : List Char} (hs : Bare s) (ht : Bare t) (hs' : s ≠ []) (ht' : t ≠ [])
    (middle : List Char) : Bare (s ++ middle ++ t) where
  head := by
    obtain ⟨c, cs, rfl⟩ := List.exists_cons_of_ne_nil hs'
    exact hs.head
  last := by
    have hlast := ht.last
    rw [List.getLast?_eq_some_getLast ht'] at hlast
    rw [List.getLast?_append, List.getLast?_eq_some_getLast ht', Option.some_or]
    exact hlast

/-- Blanks are all that trimming takes away. -/
theorem isBlankLine_of_trimChars_eq_nil (h : trimChars s = []) : isBlankLine s := by
  rw [trimChars, List.reverse_eq_nil_iff, List.dropWhile_eq_nil_iff] at h
  have hrest : s.dropWhile isBlank = [] := by
    cases hdrop : s.dropWhile isBlank with
    | nil => rfl
    | cons c cs =>
      have hc : isBlank c = true := h c (by simp [hdrop])
      have hne := List.head?_dropWhile_not isBlank s
      rw [hdrop, List.head?_cons] at hne
      simp [hc] at hne
  exact List.all_eq_true.2 (List.dropWhile_eq_nil_iff.1 hrest)

end Blanks

/-! ## Joined pieces -/

theorem splitOn_go_append {sep : Char} {front : List Char} (h : sep ∉ front)
    (rest piece : List Char) (done : List (List Char)) :
    splitOn.go sep (front ++ rest) piece done =
      splitOn.go sep rest (front.reverse ++ piece) done := by
  induction front generalizing piece with
  | nil => rfl
  | cons c cs ih =>
    rw [List.mem_cons, not_or] at h
    rw [List.cons_append, splitOn.go, if_neg (Ne.symm h.1), ih h.2, List.reverse_cons,
      List.append_assoc]
    rfl

theorem splitOn_go_joinWith {sep : Char} {first : List Char} {more : List (List Char)}
    (h : ∀ piece ∈ first :: more, sep ∉ piece) (done : List (List Char)) :
    splitOn.go sep (joinWith [sep] (first :: more)) [] done = done.reverse ++ first :: more := by
  induction more generalizing first done with
  | nil =>
    have hgo := splitOn_go_append (h first List.mem_cons_self) [] [] done
    rw [List.append_nil, List.append_nil] at hgo
    rw [joinWith, hgo, splitOn.go, List.reverse_cons, List.reverse_reverse]
  | cons second more ih =>
    have hmore := ih fun piece hp => h piece (List.mem_cons_of_mem first hp)
    rw [joinWith, List.append_assoc, splitOn_go_append (h first List.mem_cons_self),
      List.singleton_append, splitOn.go, if_pos rfl, hmore, List.append_nil, List.reverse_reverse,
      List.reverse_cons, List.append_assoc]
    · rfl
    · simp

/-- Pieces are cut where they were joined. -/
theorem splitOn_joinWith {sep : Char} {pieces : List (List Char)} (hne : pieces ≠ [])
    (h : ∀ piece ∈ pieces, sep ∉ piece) : splitOn sep (joinWith [sep] pieces) = pieces := by
  obtain ⟨first, more, rfl⟩ := List.exists_cons_of_ne_nil hne
  exact splitOn_go_joinWith h []

end ValueCoverage.Text
