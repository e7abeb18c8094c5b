import ValueCoverage.Observation.Codec

/-!
# Item lists are read as they were written

Reading undoes escaping character by character, so any items come back from the line that was made
of them, and no item brings a line break into it.
-/

namespace ValueCoverage

/-- The text takes one line. -/
def Text.InLine (text : List Char) : Prop := ∀ c ∈ text, c ≠ '\n' ∧ c ≠ '\r'

-- The characters of the text are tried, and not all characters there are.
instance (text : List Char) : Decidable (Text.InLine text) := List.decidableBAll _ _

namespace ItemList

theorem readItems_escapeChar (c : Char) (rest item : List Char) (done : List (List Char)) :
    readItems (escapeChar c ++ rest) item done = readItems rest (c :: item) done := by
  by_cases hb : c = '\\'
  · subst hb; simp [escapeChar, readItems, unescape]
  by_cases hc : c = ','
  · subst hc; simp [escapeChar, readItems, unescape]
  by_cases hn : c = '\n'
  · subst hn; simp [escapeChar, readItems, unescape]
  by_cases hr : c = '\r'
  · subst hr; simp [escapeChar, readItems, unescape]
  have hplain : escapeChar c = [c] := by simp [escapeChar, hb, hc, hn, hr]
  rw [hplain, List.singleton_append, readItems.eq_def]
  split <;> simp_all

theorem readItems_escape (text rest item : List Char) (done : List (List Char)) :
    readItems (escape text ++ rest) item done = readItems rest (text.reverse ++ item) done := by
  cases text with
  | nil => simp [escape, readItems, unescape]
  | cons c cs =>
    have hall (cs : List Char) : ∀ item, readItems (cs.flatMap escapeChar ++ rest) item done =
        readItems rest (cs.reverse ++ item) done := by
      induction cs with
      | nil => simp
      | cons c cs ih =>
        intro item
        rw [List.flatMap_cons, List.append_assoc, readItems_escapeChar, ih]
        simp
    exact hall (c :: cs) item

theorem escapeChar_ne_nil (c : Char) : escapeChar c ≠ [] := by
  unfold escapeChar
  grind

theorem inLine_escape (text : List Char) : Text.InLine (escape text) := by
  intro c h
  unfold escape at h
  split at h
  · simp only [List.mem_cons, List.not_mem_nil, or_false] at h
    rcases h with rfl | rfl <;> decide
  · obtain ⟨d, -, hd⟩ := List.mem_flatMap.1 h
    unfold escapeChar at hd
    grind

/-- The text stands for the item in a list: it takes some place there and no further line, and
reading it adds the item to what is read. -/
structure Writes (text item : List Char) : Prop where
  ne_nil : text ≠ []
  inLine : Text.InLine text
  read : ∀ rest acc done,
    readItems (text ++ rest) acc done = readItems rest (item.reverse ++ acc) done

theorem writes_escape (item : List Char) : Writes (escape item) item where
  ne_nil := by
    cases item with
    | nil => simp [escape]
    | cons c cs => simp [escape, escapeChar_ne_nil]
  inLine := inLine_escape item
  read := readItems_escape item

theorem Writes.append {text text' item item' : List Char} (h : Writes text item)
    (h' : Writes text' item') : Writes (text ++ text') (item ++ item') where
  ne_nil := List.append_ne_nil_of_left_ne_nil h.ne_nil text'
  inLine c hc := (List.mem_append.1 hc).elim (h.inLine c) (h'.inLine c)
  read rest acc done := by
    rw [List.append_assoc, h.read, h'.read, List.reverse_append, List.append_assoc]

theorem escape_eq_self {text : List Char} (hne : text ≠ [])
    (h : ∀ c ∈ text, escapeChar c = [c]) : escape text = text := by
  rw [escape, if_neg (by simpa using hne), List.flatMap_def, List.map_congr_left h,
    ← List.flatMap_def, List.flatMap_singleton']

/-- A text without anything to escape stands for itself. -/
theorem Writes.of_escape {text : List Char} (h : escape text = text) : Writes text text := by
  have hwrites := writes_escape text
  rwa [h] at hwrites

section Written

variable {α : Type} {text item : α → List Char}

theorem readItems_joinWith {first : α} {more : List α}
    (h : ∀ a ∈ first :: more, Writes (text a) (item a)) (done : List (List Char)) :
    readItems (Text.joinWith [',', ' '] ((first :: more).map text)) [] done =
      .ok (done.reverse ++ (first :: more).map item) := by
  induction more generalizing first done with
  | nil =>
    have hread := (h first List.mem_cons_self).read [] [] done
    rw [List.append_nil] at hread
    simp [Text.joinWith, hread, readItems]
  | cons second more ih =>
    have hmore : ∀ done, _ := ih fun a ha => h a (List.mem_cons_of_mem _ ha)
    simp only [List.map_cons, Text.joinWith, List.append_assoc] at hmore ⊢
    rw [(h first List.mem_cons_self).read]
    simp only [List.cons_append, List.nil_append, readItems, List.append_nil, List.reverse_reverse,
      hmore, List.reverse_cons, List.append_assoc]

theorem joinWith_ne_nil {first : α} (h : Writes (text first) (item first)) (more : List α) :
    Text.joinWith [',', ' '] ((first :: more).map text) ≠ [] := by
  cases more <;> simp [Text.joinWith, h.ne_nil]

/-- **Items are read back as they were written.** -/
theorem split_bracket_map {items : List α} (h : ∀ a ∈ items, Writes (text a) (item a)) :
    split (bracket (items.map text)) = .ok (items.map item) := by
  have hinner :
      (Text.dropPrefix? ['['] (bracket (items.map text))).bind (Text.dropSuffix? [']']) =
        some (Text.joinWith [',', ' '] (items.map text)) := by
    have hopen : Text.dropPrefix? ['['] (bracket (items.map text)) =
        some (Text.joinWith [',', ' '] (items.map text) ++ [']']) :=
      Text.dropPrefix?_eq_some_iff.2 rfl
    rw [hopen, Option.bind_some, Text.dropSuffix?_append]
  rw [split, hinner]
  cases items with
  | nil => rfl
  | cons first more =>
    have hread := readItems_joinWith h []
    have hne := joinWith_ne_nil (h first List.mem_cons_self) more
    generalize Text.joinWith [',', ' '] ((first :: more).map text) = inner at hread hne
    cases inner with
    | nil => exact absurd rfl hne
    | cons c cs => exact hread

end Written

theorem split_bracket (items : List (List Char)) :
    split (bracket (items.map escape)) = .ok items := by
  rw [split_bracket_map fun item _ => writes_escape item, List.map_id']

/-! ## One line -/

theorem mem_joinWith {sep : List Char} {pieces : List (List Char)} {c : Char}
    (h : c ∈ Text.joinWith sep pieces) : c ∈ sep ∨ ∃ piece ∈ pieces, c ∈ piece := by
  induction pieces with
  | nil => cases h
  | cons first more ih =>
    cases more with
    | nil => exact .inr ⟨first, by simp, h⟩
    | cons second more =>
      simp only [Text.joinWith, List.mem_append] at h
      rcases h with (h | h) | h
      · exact .inr ⟨first, by simp, h⟩
      · exact .inl h
      · rcases ih h with h | ⟨piece, hpiece, hc⟩
        · exact .inl h
        · exact .inr ⟨piece, List.mem_cons_of_mem _ hpiece, hc⟩

/-- An item list takes one line. -/
theorem inLine_bracket_map {α : Type} {text item : α → List Char} {items : List α}
    (h : ∀ a ∈ items, Writes (text a) (item a)) : Text.InLine (bracket (items.map text)) := by
  intro c hc
  simp only [bracket, List.cons_append, List.mem_cons, List.mem_append, List.not_mem_nil,
    or_false] at hc
  rcases hc with rfl | hc | rfl
  · decide
  · rcases mem_joinWith hc with hc | ⟨piece, hpiece, hc⟩
    · simp only [List.mem_cons, List.not_mem_nil, or_false] at hc
      rcases hc with rfl | rfl <;> decide
    · obtain ⟨a, ha, rfl⟩ := List.mem_map.1 hpiece
      exact (h a ha).inLine c hc
  · decide

theorem inLine_bracket (items : List (List Char)) :
    Text.InLine (bracket (items.map escape)) :=
  inLine_bracket_map fun item _ => writes_escape item

/-! ## Lines of texts -/

/-- The line of some texts. -/
def line (items : List String) : String :=
  String.ofList (bracket (items.map fun item => escape item.toList))

theorem toList_line (items : List String) :
    (line items).toList = bracket ((items.map String.toList).map escape) := by
  rw [line, String.toList_ofList, List.map_map]
  rfl

theorem readItems_line (items : List String) : Codec.readItems (line items) = .ok items := by
  rw [Codec.readItems, toList_line, split_bracket]
  simp [Function.comp_def]

/-- **A line tells its texts.** Any texts are read back from the line that is made of them, none and
an empty one included. It holds no line break, whatever they hold, and no other texts have that
line. -/
theorem line_tells_texts (items : List String) :
    Codec.readItems (line items) = .ok items ∧ Text.InLine (line items).toList ∧
      ∀ others, line others = line items ↔ others = items := by
  refine ⟨readItems_line items, ?_, fun others => ⟨fun heq => ?_, congrArg line⟩⟩
  · rw [toList_line]
    exact inLine_bracket (items.map String.toList)
  · have hread := readItems_line others
    rw [heq, readItems_line] at hread
    exact (Except.ok.inj hread).symm

example : line [] = "[]" ∧ line [""] = "[\\e]" ∧
    line [" a,b]", "\\e", "\r\n"] = "[ a\\,b], \\\\e, \\r\\n]" := by decide

end ItemList

end ValueCoverage
