import ValueCoverage.Proofs.Descriptor.Grammar
import ValueCoverage.Proofs.Text.Cutting
import ValueCoverage.Selection.TypeSpelling

/-!
# Both spellings of a type give its descriptor

A rule may name a type as descriptors do or as source code does. A name that could be taken for
another notation, a keyword or the letter of a primitive type, is no class name; of all other names,
neither spelling is misread.
-/

namespace ValueCoverage

open Text (isBlank)

/-! ## Source text -/

/-- The type as source code names it, with points in class names. -/
def BaseType.sourceText : BaseType → List Char
  | .primitive kind => kind.keyword.toList
  | .object name => (Text.pointed name).toList

/-- The type as source code names it, with a pair of brackets for each dimension behind. -/
def FieldType.sourceText (t : FieldType) : String :=
  String.ofList (t.base.sourceText ++ (List.replicate t.dims ['[', ']']).flatten)

/-- The internal name of a class that is nothing else in any notation. -/
structure IsClassName (name : String) : Prop where
  blank : name.toList.any isBlank = false
  point : '.' ∉ name.toList
  semicolon : ';' ∉ name.toList
  opening : '[' ∉ name.toList
  closing : ']' ∉ name.toList
  keyword : name ∉ Primitive.all.map Primitive.keyword
  letter : name.toList ∉ Primitive.all.map fun kind => [kind.tag]

def BaseType.Spellable : BaseType → Prop
  | .primitive _ => True
  | .object name => IsClassName name

/-- If the type names a class, nothing else has that name. -/
def FieldType.Spellable (t : FieldType) : Prop := t.base.Spellable

theorem Primitive.mem_all (p : Primitive) : p ∈ Primitive.all := by cases p <;> decide

theorem Primitive.ofKeyword?_keyword (p : Primitive) : ofKeyword? p.keyword = some p := by
  cases p <;> decide

theorem Primitive.ofKeyword?_eq_none {word : String} :
    ofKeyword? word = none ↔ word ∉ all.map keyword := by
  simp [ofKeyword?, List.find?_eq_none]

section Pointed

variable {name : String} {c : Char}

theorem mem_pointed (h : c ∈ (Text.pointed name).toList) : c = '.' ∨ c ∈ name.toList := by
  rw [Text.pointed, Text.replaceChar, String.toList_ofList] at h
  obtain ⟨d, hd, rfl⟩ := List.mem_map.1 h
  by_cases hslash : d = '/' <;> simp [hslash, hd]

/-- The slashes come back. -/
theorem replaceChar_pointed (h : '.' ∉ name.toList) :
    Text.replaceChar '.' '/' (Text.pointed name) = name := by
  have hback : ∀ c ∈ name.toList, (if (if c = '/' then '.' else c) = '.' then '/'
      else if c = '/' then '.' else c) = c := by
    intro c hc
    by_cases hslash : c = '/'
    · simp [hslash]
    · have hpoint : c ≠ '.' := fun heq => h (heq ▸ hc)
      simp [hslash, hpoint]
  rw [Text.pointed, Text.replaceChar, Text.replaceChar, String.toList_ofList, List.map_map,
    ← String.toList_inj, String.toList_ofList]
  exact (List.map_congr_left hback).trans (List.map_id' _)

theorem IsClassName.not_mem_pointed (h : IsClassName name) :
    ';' ∉ (Text.pointed name).toList ∧ '[' ∉ (Text.pointed name).toList ∧
      ']' ∉ (Text.pointed name).toList := by
  refine ⟨fun hmem => ?_, fun hmem => ?_, fun hmem => ?_⟩
  · exact (mem_pointed hmem).elim (by decide) h.semicolon
  · exact (mem_pointed hmem).elim (by decide) h.opening
  · exact (mem_pointed hmem).elim (by decide) h.closing

theorem IsClassName.pointed_no_blank (h : IsClassName name) :
    (Text.pointed name).toList.any isBlank = false := by
  rw [List.any_eq_false]
  intro c hc
  rcases mem_pointed hc with rfl | hc
  · decide
  · exact List.any_eq_false.1 h.blank c hc

theorem IsClassName.ofKeyword?_pointed (h : IsClassName name) :
    Primitive.ofKeyword? (Text.pointed name) = none := by
  rw [Primitive.ofKeyword?_eq_none]
  intro hmem
  obtain ⟨kind, hkind, heq⟩ := List.mem_map.1 hmem
  have hname : name = kind.keyword := by
    rw [← replaceChar_pointed h.point, ← heq]
    cases kind <;> decide
  exact h.keyword (hname ▸ List.mem_map_of_mem hkind)

/-- No descriptor looks like the source text of a class. -/
theorem IsClassName.readField_pointed (h : IsClassName name) (t : FieldType) :
    Descriptor.readField (Text.pointed name) ≠ .ok t := by
  intro hread
  obtain ⟨-, hchars⟩ := Descriptor.readField_eq_ok.1 hread
  obtain ⟨hsemicolon, hopening, -⟩ := h.not_mem_pointed
  obtain ⟨dims, base⟩ := t
  rw [hchars] at hsemicolon hopening
  cases dims with
  | succ n => exact hopening (by simp [FieldType.descriptorChars_succ])
  | zero =>
    cases base with
    | object inner => exact hsemicolon (by simp [FieldType.descriptorChars, BaseType.descriptor])
    | primitive kind =>
      -- a single letter, which the slashes have not changed
      have hname : name.toList = [kind.tag] := by
        have hpointed : Text.pointed name = String.ofList [kind.tag] := by
          rw [← String.toList_inj, hchars, String.toList_ofList]
          rfl
        rw [← replaceChar_pointed h.point, hpointed]
        cases kind <;> decide
      exact h.letter (hname ▸ List.mem_map.2 ⟨kind, kind.mem_all, rfl⟩)

end Pointed

namespace TypeSpelling

/-! ## Brackets -/

theorem takeBrackets_append (n : Nat) (rest : List Char) (dims : Nat) :
    takeBrackets ((List.replicate n [']', '[']).flatten ++ rest) dims =
      takeBrackets rest (dims + n) := by
  induction n generalizing dims with
  | zero => rfl
  | succ n ih =>
    have hblank : isBlank ']' = false := by decide
    rw [List.replicate_succ, List.flatten_cons, List.append_assoc, List.cons_append,
      List.singleton_append, takeBrackets, hblank]
    simp only [Bool.false_eq_true, if_false]
    rw [ih, Nat.add_right_comm, Nat.add_assoc]

theorem takeBrackets_done {rest : List Char} (hblank : rest.head?.any isBlank = false)
    (hclose : rest.head? ≠ some ']') (dims : Nat) : takeBrackets rest dims = (dims, rest) := by
  cases rest with
  | nil => rfl
  | cons c rest =>
    have hc : isBlank c = false := by simpa using hblank
    have hne : c ≠ ']' := by simpa using hclose
    rw [takeBrackets, hc, if_neg Bool.false_ne_true]
    exact fun more heq _ => hne heq

/-- What stands before brackets is found. -/
theorem descriptor_brackets {base : List Char} (hblank : base.any isBlank = false)
    (hclose : ']' ∉ base) (n : Nat) :
    descriptor (String.ofList (base ++ (List.replicate n ['[', ']']).flatten)) =
      String.ofList (List.replicate n '[' ++ baseDescriptor (String.ofList base)) := by
  have hall : (base ++ (List.replicate n ['[', ']']).flatten).any isBlank = false := by
    rw [List.any_append, hblank, Bool.false_or, List.any_eq_false]
    intro c hc
    obtain ⟨pair, hpair, hc⟩ := List.mem_flatten.1 hc
    rw [List.eq_of_mem_replicate hpair] at hc
    simp only [List.mem_cons, List.not_mem_nil, or_false] at hc
    rcases hc with rfl | rfl <;> decide
  have hreverse : (base ++ (List.replicate n ['[', ']']).flatten).reverse =
      (List.replicate n [']', '[']).flatten ++ base.reverse := by
    simp [List.reverse_flatten]
  have hhead : base.reverse.head?.any isBlank = false := by
    rw [List.head?_reverse]
    exact (Text.bare_of_no_blank hblank).last
  have hlast : base.reverse.head? ≠ some ']' := fun heq =>
    hclose (List.mem_reverse.1 (List.mem_of_head? heq))
  simp only [descriptor, String.toList_ofList, (Text.bare_of_no_blank hall).trimChars_eq, hreverse,
    takeBrackets_append, takeBrackets_done hhead hlast, List.reverse_reverse, Nat.zero_add]

/-! ## Both spellings -/

variable {t : FieldType}

theorem baseDescriptor_sourceText {base : BaseType} (h : base.Spellable) :
    baseDescriptor (String.ofList base.sourceText) = base.descriptor := by
  cases base with
  | primitive kind =>
    rw [BaseType.sourceText, String.ofList_toList, baseDescriptor, kind.ofKeyword?_keyword]
    rfl
  | object name =>
    rw [BaseType.sourceText, String.ofList_toList, baseDescriptor, h.ofKeyword?_pointed]
    cases hread : Descriptor.readField (Text.pointed name) with
    | ok t => exact absurd hread (h.readField_pointed t)
    | error e =>
      simp only [replaceChar_pointed h.point]
      rfl

theorem sourceText_plain {base : BaseType} (h : base.Spellable) :
    base.sourceText.any isBlank = false ∧ ']' ∉ base.sourceText := by
  cases base with
  | primitive kind => cases kind <;> decide
  | object name => exact ⟨h.pointed_no_blank, h.not_mem_pointed.2.2⟩

theorem descriptor_sourceText (h : t.Spellable) : descriptor t.sourceText = t.descriptor := by
  obtain ⟨hblank, hclose⟩ := sourceText_plain h
  rw [FieldType.sourceText, descriptor_brackets hblank hclose, baseDescriptor_sourceText h]
  rfl

theorem wellFormed_of_spellable (h : t.Spellable) : t.WellFormed := by
  obtain ⟨dims, base⟩ := t
  cases base with
  | primitive kind => trivial
  | object name => exact h.semicolon

theorem descriptorChars_plain (h : t.Spellable) :
    t.descriptorChars.any isBlank = false ∧ ']' ∉ t.descriptorChars := by
  have hbase : t.base.descriptor.any isBlank = false ∧ ']' ∉ t.base.descriptor := by
    obtain ⟨dims, base⟩ := t
    cases base with
    | primitive kind => cases kind <;> exact ⟨rfl, by simp [BaseType.descriptor, Primitive.tag]⟩
    | object name =>
      have hletters : isBlank 'L' = false ∧ isBlank ';' = false := by decide
      exact ⟨by simp [BaseType.descriptor, hletters, h.blank],
        by simp [BaseType.descriptor, h.closing]⟩
  have hbracket : isBlank '[' = false := by decide
  constructor
  · rw [FieldType.descriptorChars, List.any_append, hbase.1, Bool.or_false, List.any_eq_false]
    intro c hc
    rw [List.eq_of_mem_replicate hc, hbracket]
    decide
  · rw [FieldType.descriptorChars, List.mem_append, not_or]
    exact ⟨fun hmem => absurd (List.eq_of_mem_replicate hmem) (by decide), hbase.2⟩

/-- No keyword is a descriptor. -/
theorem ofKeyword?_descriptor (h : t.WellFormed) : Primitive.ofKeyword? t.descriptor = none := by
  rw [Primitive.ofKeyword?_eq_none]
  intro hmem
  obtain ⟨kind, -, heq⟩ := List.mem_map.1 hmem
  have hread : Descriptor.readField kind.keyword = .ok t :=
    Descriptor.readField_eq_ok.2 ⟨h, by rw [heq, FieldType.descriptor, String.toList_ofList]⟩
  cases kind <;> cases hread

theorem descriptor_descriptor (h : t.Spellable) : descriptor t.descriptor = t.descriptor := by
  obtain ⟨hblank, hclose⟩ := descriptorChars_plain h
  have hbase : baseDescriptor t.descriptor = t.descriptorChars := by
    have hwell := wellFormed_of_spellable h
    have hread : Descriptor.readField t.descriptor = .ok t :=
      Descriptor.readField_eq_ok.2 ⟨hwell, by rw [FieldType.descriptor, String.toList_ofList]⟩
    rw [baseDescriptor, ofKeyword?_descriptor hwell]
    simp only [hread]
    rw [FieldType.descriptor, String.toList_ofList]
  have hbrackets := descriptor_brackets hblank hclose 0
  simp only [List.replicate_zero, List.flatten_nil, List.append_nil, List.nil_append] at hbrackets
  rw [← FieldType.descriptor, hbase] at hbrackets
  exact hbrackets

end TypeSpelling

end ValueCoverage
