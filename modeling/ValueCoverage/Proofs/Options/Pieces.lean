import ValueCoverage.Options.Basic

/-!
# Pieces of an option string

An option string is cut at the commas outside parentheses. Its pieces are the only texts that give
it when they are joined by commas, that each close the parentheses they open, and that hold no comma
outside parentheses. There are such pieces just if the parentheses of the whole string match.
-/

namespace ValueCoverage.Options

/-! ## Parentheses that match -/

/-- Behind `depth` open parentheses the text closes these and its own, and closes none that is not
open. -/
structure Closes (depth : Nat) (text : List Char) : Prop where
  all : depth + text.count '(' = text.count ')'
  within : ∀ front, front <+: text → front.count ')' ≤ depth + front.count '('

/-- The parentheses of a text match. -/
abbrev Balanced (text : List Char) : Prop := Closes 0 text

/-- Behind `depth` open parentheses, every comma of the text stands inside some. -/
def CommasInside (depth : Nat) (text : List Char) : Prop :=
  ∀ front rest, text = front ++ ',' :: rest → front.count ')' < depth + front.count '('

section Cons

variable {depth : Nat} {c : Char} {text : List Char}

theorem closes_nil : Closes depth [] ↔ depth = 0 := by
  constructor
  · intro h
    simpa using h.all
  · rintro rfl
    exact ⟨rfl, fun front hfront => by simp [List.prefix_nil.1 hfront]⟩

/-- The front of a text that begins with a character is empty or begins with it, too. -/
theorem forall_prefix_cons {p : List Char → Prop} :
    (∀ front, front <+: c :: text → p front) ↔ p [] ∧ ∀ front, front <+: text → p (c :: front) := by
  constructor
  · intro h
    exact ⟨h [] (List.nil_prefix), fun front hfront => h _ (List.cons_prefix_cons.2 ⟨rfl, hfront⟩)⟩
  · rintro ⟨hnil, hcons⟩ front hfront
    rcases List.prefix_cons_iff.1 hfront with rfl | ⟨front', rfl, hfront'⟩
    · exact hnil
    · exact hcons front' hfront'

theorem closes_iff : Closes depth text ↔ depth + text.count '(' = text.count ')' ∧
    ∀ front, front <+: text → front.count ')' ≤ depth + front.count '(' :=
  ⟨fun h => ⟨h.all, h.within⟩, fun h => ⟨h.1, h.2⟩⟩

theorem closes_open : Closes depth ('(' :: text) ↔ Closes (depth + 1) text := by
  rw [closes_iff, closes_iff, forall_prefix_cons]
  simp [Nat.add_assoc, Nat.add_comm 1]

theorem closes_close : Closes depth (')' :: text) ↔ 0 < depth ∧ Closes (depth - 1) text := by
  have hparens : ∀ t : List Char, (')' :: t).count '(' = t.count '(' ∧
      (')' :: t).count ')' = t.count ')' + 1 := fun t => by simp
  rw [closes_iff, closes_iff, forall_prefix_cons, (hparens text).1, (hparens text).2]
  simp only [hparens]
  constructor
  · rintro ⟨hall, -, hwithin⟩
    have hpos : 1 ≤ depth := by simpa using hwithin [] List.nil_prefix
    refine ⟨hpos, by omega, fun front hfront => ?_⟩
    have := hwithin front hfront
    omega
  · rintro ⟨hpos, hall, hwithin⟩
    refine ⟨by omega, by simp, fun front hfront => ?_⟩
    have := hwithin front hfront
    omega

theorem closes_plain (hopen : c ≠ '(') (hclose : c ≠ ')') :
    Closes depth (c :: text) ↔ Closes depth text := by
  rw [closes_iff, closes_iff, forall_prefix_cons]
  simp [hopen, hclose]

theorem commasInside_nil : CommasInside depth [] := by
  intro front rest h
  simp at h

theorem forall_cut_cons {p : List Char → Prop} :
    (∀ front rest, c :: text = front ++ ',' :: rest → p front) ↔
      (c = ',' → p []) ∧ ∀ front rest, text = front ++ ',' :: rest → p (c :: front) := by
  constructor
  · intro h
    refine ⟨fun hc => h [] text (by rw [hc]; rfl), fun front rest htext => h _ rest ?_⟩
    rw [htext]
    rfl
  · rintro ⟨hnil, hcons⟩ front rest htext
    cases front with
    | nil => exact hnil (List.cons.inj htext).1
    | cons c' front =>
      obtain ⟨rfl, htext'⟩ := List.cons.inj htext
      exact hcons front rest htext'

theorem commasInside_open :
    CommasInside depth ('(' :: text) ↔ CommasInside (depth + 1) text := by
  unfold CommasInside
  rw [forall_cut_cons]
  simp [Nat.add_assoc, Nat.add_comm 1]

theorem commasInside_close (hdepth : 0 < depth) :
    CommasInside depth (')' :: text) ↔ CommasInside (depth - 1) text := by
  unfold CommasInside
  rw [forall_cut_cons]
  have hparens : ∀ t : List Char, (')' :: t).count '(' = t.count '(' ∧
      (')' :: t).count ')' = t.count ')' + 1 := fun t => by simp
  simp only [hparens]
  constructor
  · rintro ⟨-, h⟩ front rest htext
    have := h front rest htext
    omega
  · intro h
    refine ⟨by simp, fun front rest htext => ?_⟩
    have := h front rest htext
    omega

theorem commasInside_plain (hopen : c ≠ '(') (hclose : c ≠ ')') :
    CommasInside depth (c :: text) ↔ (c = ',' → 0 < depth) ∧ CommasInside depth text := by
  unfold CommasInside
  rw [forall_cut_cons]
  simp [hopen, hclose]

end Cons

/-! ## Cutting -/

/-- What an option string is cut into: the parentheses of a piece match, behind `depth` open ones,
and each of its commas stands inside parentheses. -/
structure IsPiece (depth : Nat) (piece : List Char) : Prop where
  closes : Closes depth piece
  commasInside : CommasInside depth piece

section Piece

variable {depth : Nat} {c : Char} {text : List Char}

theorem isPiece_iff : IsPiece depth text ↔ Closes depth text ∧ CommasInside depth text :=
  ⟨fun h => ⟨h.closes, h.commasInside⟩, fun h => ⟨h.1, h.2⟩⟩

theorem isPiece_nil : IsPiece depth [] ↔ depth = 0 := by
  rw [isPiece_iff, closes_nil]
  exact ⟨And.left, fun h => ⟨h, commasInside_nil⟩⟩

theorem isPiece_open : IsPiece depth ('(' :: text) ↔ IsPiece (depth + 1) text := by
  rw [isPiece_iff, isPiece_iff, closes_open, commasInside_open]

theorem isPiece_close : IsPiece depth (')' :: text) ↔ 0 < depth ∧ IsPiece (depth - 1) text := by
  rw [isPiece_iff, isPiece_iff, closes_close, and_assoc]
  exact and_congr_right fun hdepth => by rw [commasInside_close hdepth]

theorem isPiece_plain (hopen : c ≠ '(') (hclose : c ≠ ')') :
    IsPiece depth (c :: text) ↔ (c = ',' → 0 < depth) ∧ IsPiece depth text := by
  rw [isPiece_iff, isPiece_iff, closes_plain hopen hclose, commasInside_plain hopen hclose,
    and_left_comm]

/-- Without parentheses and commas, a front changes nothing. -/
theorem isPiece_append_plain {front : List Char} (hopen : '(' ∉ front) (hclose : ')' ∉ front)
    (hcomma : ',' ∉ front) : IsPiece depth (front ++ text) ↔ IsPiece depth text := by
  induction front with
  | nil => rfl
  | cons c front ih =>
    rw [List.mem_cons, not_or] at hopen hclose hcomma
    rw [List.cons_append, isPiece_plain (Ne.symm hopen.1) (Ne.symm hclose.1),
      ih hopen.2 hclose.2 hcomma.2]
    exact and_iff_right fun hc => absurd hc.symm hcomma.1

/-- Inside parentheses, a front that closes those it finds open and its own changes nothing else. -/
theorem isPiece_append_of_closes {open' : Nat} {front : List Char} (h : Closes open' front)
    (hdepth : 0 < depth) : IsPiece (open' + depth) (front ++ text) ↔ IsPiece depth text := by
  induction front generalizing open' with
  | nil => rw [closes_nil.1 h, Nat.zero_add, List.nil_append]
  | cons c front ih =>
    rw [List.cons_append]
    by_cases hopen : c = '('
    · subst hopen
      rw [isPiece_open, Nat.add_right_comm]
      exact ih (closes_open.1 h)
    by_cases hclose : c = ')'
    · subst hclose
      obtain ⟨hpos, hrest⟩ := closes_close.1 h
      rw [isPiece_close, ← ih hrest, Nat.sub_add_comm hpos]
      exact and_iff_right (by omega)
    · rw [isPiece_plain hopen hclose, ih ((closes_plain hopen hclose).1 h)]
      exact and_iff_right fun _ => by omega

end Piece

/-- A joined text begins in its first piece, unless that is empty. -/
theorem joinWith_eq_cons {c : Char} {text first : List Char} {rest : List (List Char)} :
    Text.joinWith [','] (first :: rest) = c :: text ↔
      (∃ first', first = c :: first' ∧ Text.joinWith [','] (first' :: rest) = text) ∨
      (first = [] ∧ c = ',' ∧ rest ≠ [] ∧ Text.joinWith [','] rest = text) := by
  cases rest with
  | nil => simp [Text.joinWith]
  | cons second more =>
    cases first with
    | nil => simp [Text.joinWith, eq_comm]
    | cons c' first' =>
      simp only [Text.joinWith, List.cons_append, List.cons.injEq, reduceCtorEq, false_and,
        or_false]
      constructor
      · rintro ⟨rfl, rfl⟩
        exact ⟨first', ⟨rfl, rfl⟩, rfl⟩
      · rintro ⟨first', ⟨rfl, rfl⟩, rfl⟩
        exact ⟨rfl, rfl⟩

/-- The pieces of a text that begins with a character: it begins the first of them, or it is a comma
behind an empty first one. -/
theorem exists_pieces_cons {q : List Char → List (List Char) → Prop} {depth : Nat} {c : Char}
    {text : List Char} :
    (∃ first rest, q first rest ∧ IsPiece depth first ∧ (∀ p ∈ rest, IsPiece 0 p) ∧
      Text.joinWith [','] (first :: rest) = c :: text) ↔
    (∃ first rest, q (c :: first) rest ∧ IsPiece depth (c :: first) ∧ (∀ p ∈ rest, IsPiece 0 p) ∧
      Text.joinWith [','] (first :: rest) = text) ∨
    (c = ',' ∧ depth = 0 ∧ ∃ first rest, q [] (first :: rest) ∧ IsPiece 0 first ∧
      (∀ p ∈ rest, IsPiece 0 p) ∧ Text.joinWith [','] (first :: rest) = text) := by
  constructor
  · rintro ⟨first, rest, hq, hfirst, hrest, hjoin⟩
    rcases joinWith_eq_cons.1 hjoin with ⟨first', rfl, htext⟩ | ⟨rfl, rfl, hne, htext⟩
    · exact .inl ⟨first', rest, hq, hfirst, hrest, htext⟩
    · obtain ⟨second, more, rfl⟩ := List.exists_cons_of_ne_nil hne
      rw [List.forall_mem_cons] at hrest
      exact .inr ⟨rfl, isPiece_nil.1 hfirst, second, more, hq, hrest.1, hrest.2, htext⟩
  · rintro (⟨first, rest, hq, hfirst, hrest, hjoin⟩ |
      ⟨rfl, rfl, first, rest, hq, hfirst, hrest, hjoin⟩)
    · exact ⟨c :: first, rest, hq, hfirst, hrest, joinWith_eq_cons.2 (.inl ⟨first, rfl, hjoin⟩)⟩
    · refine ⟨[], first :: rest, hq, isPiece_nil.2 rfl, ?_,
        joinWith_eq_cons.2 (.inr ⟨rfl, rfl, by simp, hjoin⟩)⟩
      rw [List.forall_mem_cons]
      exact ⟨hfirst, hrest⟩

/-- What is cut from a text on behind a part of a piece, and the other way round. -/
theorem splitOutside_eq_some {text : List Char} {depth : Nat} {piece : List Char}
    {done pieces : List (List Char)} :
    splitOutside text depth piece done = some pieces ↔
      ∃ first rest, pieces = done.reverse ++ (piece.reverse ++ first) :: rest ∧
        IsPiece depth first ∧ (∀ p ∈ rest, IsPiece 0 p) ∧
        Text.joinWith [','] (first :: rest) = text := by
  induction text generalizing depth piece done with
  | nil =>
    have hempty : ∀ (first : List Char) (rest : List (List Char)),
        Text.joinWith [','] (first :: rest) = [] ↔ first = [] ∧ rest = [] := by
      intro first rest
      cases rest <;> simp [Text.joinWith]
    simp only [hempty]
    constructor
    · intro h
      rw [splitOutside] at h
      split at h
      · next hdepth =>
        cases h
        exact ⟨[], [], by simp, isPiece_nil.2 hdepth, by simp, rfl, rfl⟩
      · cases h
    · rintro ⟨_, _, rfl, hfirst, -, rfl, rfl⟩
      rw [splitOutside, if_pos (isPiece_nil.1 hfirst)]
      simp
  | cons c text ih =>
    rw [exists_pieces_cons, splitOutside]
    by_cases hopen : c = '('
    · subst hopen
      rw [if_pos rfl, ih]
      simp [isPiece_open]
    by_cases hclose : c = ')'
    · subst hclose
      rw [if_neg hopen, if_pos rfl]
      by_cases hdepth : depth = 0
      · simp [hdepth, isPiece_close]
      · rw [if_neg hdepth, ih]
        simp [isPiece_close, Nat.pos_of_ne_zero hdepth]
    by_cases hcut : c = ',' ∧ depth = 0
    · obtain ⟨rfl, rfl⟩ := hcut
      rw [if_neg hopen, if_neg hclose, if_pos ⟨rfl, rfl⟩, ih]
      simp [isPiece_plain]
    · rw [if_neg hopen, if_neg hclose, if_neg hcut, ih]
      have hpiece : ∀ t, IsPiece depth (c :: t) ↔ IsPiece depth t := by
        intro t
        rw [isPiece_plain hopen hclose]
        exact and_iff_right fun hc => Nat.pos_of_ne_zero fun hdepth => hcut ⟨hc, hdepth⟩
      have hnone : ∀ x : Prop, (c = ',' ∧ depth = 0 ∧ x) ↔ False := by
        intro x
        exact ⟨fun h => hcut ⟨h.1, h.2.1⟩, False.elim⟩
      simp [hpiece, hnone]

/-- A text is cut into the only pieces that give it when they are joined. -/
theorem splitOutside_iff {text : List Char} {pieces : List (List Char)} :
    splitOutside text 0 [] [] = some pieces ↔
      pieces ≠ [] ∧ (∀ p ∈ pieces, IsPiece 0 p) ∧ Text.joinWith [','] pieces = text := by
  rw [splitOutside_eq_some]
  constructor
  · rintro ⟨first, rest, rfl, hfirst, hrest, hjoin⟩
    exact ⟨by simp, List.forall_mem_cons.2 ⟨hfirst, hrest⟩, hjoin⟩
  · rintro ⟨hne, hall, hjoin⟩
    obtain ⟨first, rest, rfl⟩ := List.exists_cons_of_ne_nil hne
    rw [List.forall_mem_cons] at hall
    exact ⟨first, rest, rfl, hall.1, hall.2, hjoin⟩

theorem isSome_splitOutside {text : List Char} {depth : Nat} {piece : List Char}
    {done : List (List Char)} :
    (splitOutside text depth piece done).isSome ↔ Closes depth text := by
  induction text generalizing depth piece done with
  | nil =>
    rw [splitOutside, closes_nil]
    by_cases hdepth : depth = 0 <;> simp [hdepth]
  | cons c text ih =>
    rw [splitOutside]
    by_cases hopen : c = '('
    · subst hopen
      rw [if_pos rfl, ih, closes_open]
    by_cases hclose : c = ')'
    · subst hclose
      rw [if_neg hopen, if_pos rfl, closes_close]
      by_cases hdepth : depth = 0
      · simp [hdepth]
      · rw [if_neg hdepth, ih]
        exact (and_iff_right (Nat.pos_of_ne_zero hdepth)).symm
    rw [if_neg hopen, if_neg hclose, closes_plain hopen hclose]
    split <;> exact ih

/-- The single options of a string: those of its pieces that are not blank. -/
theorem split_eq_ok {s : String} {options : List String} :
    split s = .ok options ↔ ∃ pieces, splitOutside s.toList 0 [] [] = some pieces ∧
      pieces.filterMap (fun piece => nonBlank (String.ofList piece)) = options := by
  unfold split
  cases splitOutside s.toList 0 [] [] with
  | none => simp
  | some pieces => simp

/-- An option string is refused as a whole if its parentheses do not match, and only then. -/
theorem split_eq_error {s : String} {e : OptionError} :
    split s = .error e ↔ e = .unbalanced s ∧ ¬ Balanced s.toList := by
  have hsome : (splitOutside s.toList 0 [] []).isSome ↔ Balanced s.toList := isSome_splitOutside
  unfold split
  cases hcut : splitOutside s.toList 0 [] [] with
  | none =>
    rw [hcut] at hsome
    simp [← hsome, eq_comm]
  | some pieces =>
    rw [hcut] at hsome
    simp [← hsome]

end ValueCoverage.Options
