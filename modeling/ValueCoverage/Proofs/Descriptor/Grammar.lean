import Mathlib.Data.List.TakeWhile
import ValueCoverage.Descriptor.Reader
import ValueCoverage.Proofs.Steps

/-!
# The grammar of descriptors

What is read is just what the grammar says, and it is read as what it was written from: a class name
ends with its first semicolon, brackets belong to the type behind them, and a parameter list ends
where a parenthesis stands in the place of a type. So no text can be taken for two lists of types.
-/

namespace ValueCoverage

open Text (byteLength)

namespace Text

theorem byteLength_eq (cs : List Char) (n : Nat) :
    cs.foldl (fun n c => n + c.utf8Size) n = n + byteLength cs := by
  unfold byteLength
  induction cs generalizing n with
  | nil => simp
  | cons c cs ih =>
    rw [List.foldl_cons, List.foldl_cons, ih, ih (0 + _)]
    omega

@[simp] theorem byteLength_nil : byteLength [] = 0 := rfl

@[simp] theorem byteLength_cons (c : Char) (cs : List Char) :
    byteLength (c :: cs) = c.utf8Size + byteLength cs := by
  rw [byteLength, List.foldl_cons, byteLength_eq, Nat.zero_add]

@[simp] theorem byteLength_append (front back : List Char) :
    byteLength (front ++ back) = byteLength front + byteLength back := by
  rw [byteLength, List.foldl_append, byteLength_eq]
  rfl

end Text

/-- A list of things that are all made of something is made of a list. -/
theorem exists_map_eq {α β : Type} {good : α → Prop} {f : α → β} {bs : List β}
    (h : ∀ b ∈ bs, ∃ a, good a ∧ f a = b) : ∃ as : List α, (∀ a ∈ as, good a) ∧ as.map f = bs := by
  induction bs with
  | nil => exact ⟨[], by simp, rfl⟩
  | cons b bs ih =>
    obtain ⟨a, ha, hfa⟩ := h b (by simp)
    obtain ⟨as, has, hmap⟩ := ih fun b hb => h b (by simp [hb])
    exact ⟨a :: as, by simpa [ha] using has, by rw [List.map_cons, hfa, hmap]⟩

/-! ## The grammar -/

/-- The text of a type: one letter of a primitive type, or a class name between `L` and the first
semicolon, behind any number of brackets. -/
inductive IsType : List Char → Prop where
  | primitive {c : Char} (h : c ∈ ['Z', 'B', 'C', 'S', 'I', 'J', 'F', 'D']) : IsType [c]
  | object {name : List Char} (h : ';' ∉ name) : IsType ('L' :: name ++ [';'])
  | array {cs : List Char} (h : IsType cs) : IsType ('[' :: cs)

/-- The text of a method: types in parentheses, and a type or `V` behind them. -/
inductive IsMethod : List Char → Prop where
  | mk {params : List (List Char)} {result : List Char} (hparams : ∀ cs ∈ params, IsType cs)
    (hresult : IsType result ∨ result = ['V']) :
    IsMethod ('(' :: params.flatten ++ ')' :: result)

/-- A class name has no semicolon, and the text of an array is a bracket in front of a type. -/
def ParamKind.WellFormed : ParamKind → Prop
  | .primitive _ => True
  | .object name => ';' ∉ name.toList
  | .array text => ∃ cs, text.toList = '[' :: cs ∧ IsType cs

structure Signature.WellFormed (sig : Signature) : Prop where
  params : ∀ kind ∈ sig.params, kind.WellFormed
  result : ∀ kind ∈ sig.result, kind.WellFormed

def BaseType.WellFormed : BaseType → Prop
  | .primitive _ => True
  | .object name => ';' ∉ name.toList

def FieldType.WellFormed (t : FieldType) : Prop := t.base.WellFormed

structure MethodType.WellFormed (m : MethodType) : Prop where
  params : ∀ t ∈ m.params, t.WellFormed
  result : ∀ t ∈ m.result, t.WellFormed

/-! ## Types and their texts -/

theorem Primitive.tag_mem (p : Primitive) : p.tag ∈ ['Z', 'B', 'C', 'S', 'I', 'J', 'F', 'D'] := by
  cases p <;> decide

theorem Primitive.exists_of_tag_mem {c : Char}
    (h : c ∈ ['Z', 'B', 'C', 'S', 'I', 'J', 'F', 'D']) : ∃ p : Primitive, p.tag = c := by
  simp only [List.mem_cons, List.not_mem_nil, or_false] at h
  rcases h with rfl | rfl | rfl | rfl | rfl | rfl | rfl | rfl
  · exact ⟨.boolean, rfl⟩
  · exact ⟨.byte, rfl⟩
  · exact ⟨.char, rfl⟩
  · exact ⟨.short, rfl⟩
  · exact ⟨.int, rfl⟩
  · exact ⟨.long, rfl⟩
  · exact ⟨.float, rfl⟩
  · exact ⟨.double, rfl⟩

/-- No letter of a primitive type means anything else. -/
theorem Primitive.tag_ne (p : Primitive) :
    p.tag ≠ 'L' ∧ p.tag ≠ '[' ∧ p.tag ≠ ')' ∧ p.tag ≠ 'V' ∧ p.tag.utf8Size = 1 := by
  cases p <;> decide

namespace FieldType

theorem descriptorChars_succ (n : Nat) (base : BaseType) :
    descriptorChars ⟨n + 1, base⟩ = '[' :: descriptorChars ⟨n, base⟩ := rfl

theorem isType {t : FieldType} (h : t.WellFormed) : IsType t.descriptorChars := by
  obtain ⟨n, base⟩ := t
  induction n with
  | zero =>
    cases base with
    | primitive kind => exact .primitive kind.tag_mem
    | object name => exact .object h
  | succ n ih => exact .array (ih h)

theorem exists_of_isType {cs : List Char} (h : IsType cs) :
    ∃ t : FieldType, t.WellFormed ∧ t.descriptorChars = cs := by
  induction h with
  | primitive h =>
    obtain ⟨p, rfl⟩ := Primitive.exists_of_tag_mem h
    exact ⟨⟨0, .primitive p⟩, trivial, rfl⟩
  | @object name h =>
    refine ⟨⟨0, .object (String.ofList name)⟩, ?_, ?_⟩
    · show ';' ∉ (String.ofList name).toList
      rwa [String.toList_ofList]
    · show 'L' :: (String.ofList name).toList ++ [';'] = _
      rw [String.toList_ofList]
  | array h ih =>
    obtain ⟨⟨n, base⟩, hwell, rfl⟩ := ih
    exact ⟨⟨n + 1, base⟩, hwell, descriptorChars_succ n base⟩

theorem wellFormed_kind {t : FieldType} (h : t.WellFormed) : t.kind.WellFormed := by
  obtain ⟨n, base⟩ := t
  cases n with
  | zero =>
    cases base with
    | primitive kind => trivial
    | object name => exact h
  | succ n =>
    refine ⟨descriptorChars ⟨n, base⟩, ?_, isType (t := ⟨n, base⟩) h⟩
    rw [descriptor, String.toList_ofList, descriptorChars_succ]

theorem descriptor_kind (t : FieldType) : t.kind.descriptor = t.descriptor := by
  obtain ⟨n, base⟩ := t
  cases n with
  | zero =>
    cases base with
    | primitive kind => rfl
    | object name =>
      apply String.toList_inj.1
      rw [descriptor, String.toList_ofList]
      simp [kind, ParamKind.descriptor, descriptorChars, BaseType.descriptor]
  | succ n => rfl

/-- Each kind that is well formed is that of a type. -/
theorem exists_of_wellFormed {k : ParamKind} (h : k.WellFormed) :
    ∃ t : FieldType, t.WellFormed ∧ t.kind = k := by
  cases k with
  | primitive kind => exact ⟨⟨0, .primitive kind⟩, trivial, rfl⟩
  | object name => exact ⟨⟨0, .object name⟩, h, rfl⟩
  | array text =>
    obtain ⟨cs, htext, hcs⟩ := h
    obtain ⟨⟨n, base⟩, hwell, rfl⟩ := exists_of_isType hcs
    refine ⟨⟨n + 1, base⟩, hwell, ?_⟩
    show ParamKind.array (descriptor ⟨n + 1, base⟩) = _
    rw [descriptor, descriptorChars_succ, ← htext, String.ofList_toList]

end FieldType

namespace MethodType

theorem wellFormed_signature {m : MethodType} (h : m.WellFormed) : m.signature.WellFormed where
  params := by
    intro kind hkind
    obtain ⟨t, ht, rfl⟩ := List.mem_map.1 hkind
    exact FieldType.wellFormed_kind (h.params t ht)
  result := by
    intro kind hkind
    obtain ⟨t, ht, rfl⟩ := Option.map_eq_some_iff.1 hkind
    exact FieldType.wellFormed_kind (h.result t ht)

theorem toList_descriptor_signature (m : MethodType) :
    m.signature.descriptor.toList = m.descriptorChars := by
  have htext : ∀ t : FieldType, t.kind.descriptor.toList = t.descriptorChars := by
    intro t
    rw [FieldType.descriptor_kind, FieldType.descriptor, String.toList_ofList]
  have hparams : (String.join (m.signature.params.map ParamKind.descriptor)).toList =
      m.params.flatMap FieldType.descriptorChars := by
    rw [String.toList_join, signature, List.map_map, List.flatMap_map]
    simp only [Function.comp_apply, htext]
  have hresult : m.descriptorChars = '(' :: m.params.flatMap FieldType.descriptorChars ++
      ')' :: m.signature.resultText.toList := by
    obtain ⟨params, result⟩ := m
    cases result with
    | none => simp [descriptorChars, signature, Signature.resultText]
    | some t =>
      simp only [descriptorChars, signature, Signature.resultText, Option.map_some, htext]
  rw [hresult, Signature.descriptor]
  simp [hparams]

theorem exists_of_wellFormed {sig : Signature} (h : sig.WellFormed) :
    ∃ m : MethodType, m.WellFormed ∧ m.signature = sig := by
  obtain ⟨params, result⟩ := sig
  obtain ⟨types, htypes, rfl⟩ := exists_map_eq fun kind hkind =>
    FieldType.exists_of_wellFormed (h.params kind hkind)
  cases result with
  | none => exact ⟨⟨types, none⟩, ⟨htypes, by simp⟩, rfl⟩
  | some kind =>
    obtain ⟨t, ht, rfl⟩ := FieldType.exists_of_wellFormed (h.result kind rfl)
    exact ⟨⟨types, some t⟩, ⟨htypes, by simpa using ht⟩, rfl⟩

end MethodType

namespace Descriptor

/-! ## One type -/

/-- Where a text is cut at the first such character. -/
theorem cut_at_first {c d : Char} {cs front back : List Char} :
    cs.takeWhile (· != c) = front ∧ cs.dropWhile (· != c) = d :: back ↔
      c ∉ front ∧ d = c ∧ cs = front ++ c :: back := by
  constructor
  · rintro ⟨rfl, hdrop⟩
    have hd : d = c := by
      have hhead := List.head?_dropWhile_not (· != c) cs
      rw [hdrop] at hhead
      simpa using hhead
    subst hd
    refine ⟨fun hmem => by simpa using List.mem_takeWhile_imp hmem, rfl, ?_⟩
    have hsplit := List.takeWhile_append_dropWhile (p := (· != d)) (l := cs)
    rw [hdrop] at hsplit
    exact hsplit.symm
  · rintro ⟨hfront, rfl, rfl⟩
    have hall : ∀ a ∈ front, (a != d) = true := by
      intro a ha
      rw [bne_iff_ne]
      rintro rfl
      exact hfront ha
    rw [List.takeWhile_append_of_pos hall, List.dropWhile_append_of_pos hall]
    simp

theorem readBase_object {cs : List Char} {offset : Nat} {base : BaseType} {rest : Rest} :
    readBase ⟨'L' :: cs, offset⟩ = .ok (base, rest) ↔ ∃ name : String, base = .object name ∧
      ';' ∉ name.toList ∧ cs = name.toList ++ ';' :: rest.chars ∧
      rest.offset = offset + 1 + byteLength name.toList + 1 := by
  simp only [readBase, if_true]
  constructor
  · intro h
    cases hdrop : cs.dropWhile (· != ';') with
    | nil =>
      rw [hdrop] at h
      cases h
    | cons d more =>
      rw [hdrop] at h
      cases h
      obtain ⟨hname, -, hcs⟩ := cut_at_first.1 ⟨rfl, hdrop⟩
      exact ⟨_, rfl, by rwa [String.toList_ofList], by rwa [String.toList_ofList],
        by rw [String.toList_ofList]⟩
  · rintro ⟨name, rfl, hname, hcs, hoffset⟩
    obtain ⟨htake, hdrop⟩ := cut_at_first.2 ⟨hname, rfl, hcs⟩
    simp only [hdrop, htake, String.ofList_toList, ← hoffset]

theorem readBase_primitive {c : Char} {cs : List Char} {offset : Nat} {base : BaseType}
    {rest : Rest} (hc : c ≠ 'L') :
    readBase ⟨c :: cs, offset⟩ = .ok (base, rest) ↔
      ∃ kind : Primitive, base = .primitive kind ∧ kind.tag = c ∧ rest = ⟨cs, offset + 1⟩ := by
  simp only [readBase, if_neg hc]
  cases hkind : Primitive.ofTag? c with
  | none =>
    refine iff_of_false (fun h => by cases h) ?_
    rintro ⟨kind, -, rfl, -⟩
    rw [Primitive.ofTag?_tag] at hkind
    cases hkind
  | some kind =>
    constructor
    · intro h
      cases h
      exact ⟨kind, rfl, Primitive.tag_eq_of_ofTag? hkind, rfl⟩
    · rintro ⟨kind', rfl, rfl, rfl⟩
      rw [Primitive.ofTag?_tag] at hkind
      cases hkind
      rfl

theorem readBase_eq_ok {r rest : Rest} {base : BaseType} :
    readBase r = .ok (base, rest) ↔ base.WellFormed ∧ r.chars = base.descriptor ++ rest.chars ∧
      rest.offset = r.offset + byteLength base.descriptor := by
  obtain ⟨chars, offset⟩ := r
  obtain ⟨left, place⟩ := rest
  cases chars with
  | nil => cases base <;> simp [readBase, BaseType.descriptor]
  | cons c cs =>
    by_cases hc : c = 'L'
    · subst hc
      rw [readBase_object]
      cases base with
      | primitive kind =>
        have hne : 'L' ≠ kind.tag := kind.tag_ne.1.symm
        simp [BaseType.descriptor, hne]
      | object name =>
        have hsizes : 'L'.utf8Size = 1 ∧ ';'.utf8Size = 1 := by decide
        have hplace : offset + byteLength (BaseType.object name).descriptor =
            offset + 1 + byteLength name.toList + 1 := by
          simp [BaseType.descriptor, hsizes]
          omega
        simp only [hplace]
        simp [BaseType.descriptor, BaseType.WellFormed]
    · rw [readBase_primitive hc]
      cases base with
      | primitive kind =>
        have hsize : byteLength [kind.tag] = 1 := by simp [kind.tag_ne.2.2.2.2]
        simp only [BaseType.descriptor, BaseType.WellFormed, hsize]
        simp [eq_comm, and_assoc]
      | object name => simp [BaseType.descriptor, hc]

/-- The text of a type without brackets does not begin with one. -/
theorem head?_descriptor_ne (base : BaseType) (rest : List Char) :
    (base.descriptor ++ rest).head? ≠ some '[' := by
  cases base with
  | primitive kind => simpa [BaseType.descriptor] using kind.tag_ne.2.1
  | object name => simp [BaseType.descriptor]

/-- The brackets in front are counted. -/
theorem brackets_append (n : Nat) {cs : List Char} (h : cs.head? ≠ some '[') :
    (List.replicate n '[' ++ cs).takeWhile (· = '[') = List.replicate n '[' ∧
    (List.replicate n '[' ++ cs).dropWhile (· = '[') = cs := by
  have hall : ∀ c ∈ List.replicate n '[', decide (c = '[') = true := by
    intro c hc
    exact decide_eq_true (List.eq_of_mem_replicate hc)
  rw [List.takeWhile_append_of_pos hall, List.dropWhile_append_of_pos hall]
  cases cs with
  | nil => simp
  | cons c cs =>
    have hc : ¬ c = '[' := by simpa using h
    simp [hc]

theorem takeWhile_bracket (cs : List Char) :
    cs.takeWhile (· = '[') = List.replicate (cs.takeWhile (· = '[')).length '[' :=
  List.eq_replicate_of_mem fun _ hc => by simpa using List.mem_takeWhile_imp hc

theorem byteLength_brackets (n : Nat) : byteLength (List.replicate n '[') = n := by
  induction n with
  | zero => rfl
  | succ n ih =>
    have hone : '['.utf8Size = 1 := by decide
    rw [List.replicate_succ, Text.byteLength_cons, ih, hone, Nat.add_comm]

theorem readType_eq_ok {r rest : Rest} {t : FieldType} :
    readType r = .ok (t, rest) ↔ t.WellFormed ∧ r.chars = t.descriptorChars ++ rest.chars ∧
      rest.offset = r.offset + byteLength t.descriptorChars := by
  constructor
  · intro h
    unfold readType at h
    simp only at h
    split at h
    · cases h
    · next base left hbase =>
      cases h
      obtain ⟨hwell, hchars, hoffset⟩ := readBase_eq_ok.1 hbase
      simp only at hchars hoffset
      refine ⟨hwell, ?_, ?_⟩
      · have hsplit := List.takeWhile_append_dropWhile (p := (· = '[')) (l := r.chars)
        rw [takeWhile_bracket, hchars] at hsplit
        rw [FieldType.descriptorChars, List.append_assoc]
        exact hsplit.symm
      · rw [hoffset, FieldType.descriptorChars, Text.byteLength_append, byteLength_brackets,
          Nat.add_assoc]
  · rintro ⟨hwell, hchars, hoffset⟩
    obtain ⟨n, base⟩ := t
    rw [FieldType.descriptorChars, List.append_assoc] at hchars
    obtain ⟨htake, hdrop⟩ := brackets_append n (head?_descriptor_ne base rest.chars)
    have hbase : readBase ⟨base.descriptor ++ rest.chars, r.offset + n⟩ = .ok (base, rest) := by
      refine readBase_eq_ok.2 ⟨hwell, rfl, ?_⟩
      rw [hoffset, FieldType.descriptorChars, Text.byteLength_append, byteLength_brackets,
        Nat.add_assoc]
    simp only [readType, hchars, htake, hdrop, List.length_replicate, hbase]

/-! ## Lists of types -/

/-- No type begins like the end of a list or like the result of a method that returns nothing. -/
theorem exists_head (t : FieldType) (rest : List Char) : ∃ c cs,
    t.descriptorChars ++ rest = c :: cs ∧ c ≠ ')' ∧ c ≠ 'V' := by
  obtain ⟨n, base⟩ := t
  cases n with
  | succ n => exact ⟨'[', _, rfl, by decide, by decide⟩
  | zero =>
    cases base with
    | primitive kind => exact ⟨kind.tag, rest, rfl, kind.tag_ne.2.2.1, kind.tag_ne.2.2.2.1⟩
    | object name => exact ⟨'L', _, rfl, by decide, by decide⟩

/-- The list ends where a parenthesis stands in the place of a type. -/
theorem readParams_close {bound : Nat} {cs : List Char} {offset : Nat} {done : List FieldType} :
    readParams (bound + 1) ⟨')' :: cs, offset⟩ done = .ok (done.reverse, ⟨cs, offset + 1⟩) := rfl

theorem readParams_type {bound : Nat} {c : Char} {cs : List Char} {offset : Nat}
    {done : List FieldType} (hc : c ≠ ')') :
    readParams (bound + 1) ⟨c :: cs, offset⟩ done =
      readType ⟨c :: cs, offset⟩ >>= fun x => readParams bound x.2 (x.1 :: done) := by
  rw [readParams]
  split
  · next heq => cases heq
  · next heq =>
    cases heq
    exact absurd rfl hc
  · cases readType ⟨c :: cs, offset⟩ <;> rfl

theorem readParams_eq_ok {bound : Nat} {r rest : Rest} {done params : List FieldType}
    (h : readParams bound r done = .ok (params, rest)) :
    ∃ more, params = done.reverse ++ more ∧ (∀ t ∈ more, t.WellFormed) ∧
      r.chars = more.flatMap FieldType.descriptorChars ++ ')' :: rest.chars ∧
      rest.offset = r.offset + byteLength (more.flatMap FieldType.descriptorChars) + 1 := by
  induction bound generalizing r done with
  | zero => cases h
  | succ bound ih =>
    obtain ⟨chars, offset⟩ := r
    cases chars with
    | nil => cases h
    | cons c cs =>
      by_cases hc : c = ')'
      · subst hc
        rw [readParams_close] at h
        cases h
        exact ⟨[], by simp, by simp, rfl, rfl⟩
      · rw [readParams_type hc] at h
        obtain ⟨⟨t, left⟩, ht, h⟩ := bind_eq_ok.1 h
        obtain ⟨hwell, hchars, hoffset⟩ := readType_eq_ok.1 ht
        obtain ⟨more, rfl, hmore, hleft, hrest⟩ := ih h
        refine ⟨t :: more, by simp, by simpa [hwell] using hmore, ?_, ?_⟩
        · rw [hchars, hleft]
          simp
        · rw [hrest, hoffset]
          simp
          omega

/-- Each round takes up a character at least, so the bound is not met, and a greater one makes no
difference. -/
theorem readParams_add {bound : Nat} {r : Rest} (h : r.chars.length < bound) (extra : Nat)
    (done : List FieldType) : readParams (bound + extra) r done = readParams bound r done := by
  induction bound generalizing r done with
  | zero => exact absurd h (Nat.not_lt_zero _)
  | succ bound ih =>
    obtain ⟨chars, offset⟩ := r
    rw [Nat.add_right_comm]
    cases chars with
    | nil => rfl
    | cons c cs =>
      by_cases hc : c = ')'
      · subst hc
        rfl
      · rw [readParams_type hc, readParams_type hc]
        cases hread : readType ⟨c :: cs, offset⟩ with
        | error fault => rfl
        | ok found =>
          obtain ⟨t, rest⟩ := found
          obtain ⟨-, hchars, -⟩ := readType_eq_ok.1 hread
          obtain ⟨d, ds, hhead, -⟩ := exists_head t []
          rw [List.append_nil] at hhead
          have hlen := congrArg List.length hchars
          simp only [hhead, List.length_append, List.length_cons] at hlen h
          exact ih (show rest.chars.length < bound by omega) (t :: done)

theorem readParams_append {params : List FieldType} (h : ∀ t ∈ params, t.WellFormed)
    {bound : Nat} (hbound : params.length < bound) (cs : List Char) (offset : Nat)
    (done : List FieldType) :
    readParams bound ⟨params.flatMap FieldType.descriptorChars ++ ')' :: cs, offset⟩ done =
      .ok (done.reverse ++ params,
        ⟨cs, offset + byteLength (params.flatMap FieldType.descriptorChars) + 1⟩) := by
  induction params generalizing bound offset done with
  | nil =>
    obtain ⟨bound, rfl⟩ : ∃ n, bound = n + 1 := ⟨bound - 1, by simp at hbound; omega⟩
    rw [List.flatMap_nil, List.nil_append, readParams_close, List.append_nil]
    rfl
  | cons t params ih =>
    obtain ⟨bound, rfl⟩ : ∃ n, bound = n + 1 := ⟨bound - 1, by simp at hbound; omega⟩
    rw [List.flatMap_cons, List.append_assoc]
    generalize hleft : params.flatMap FieldType.descriptorChars ++ ')' :: cs = left
    have ht : readType ⟨t.descriptorChars ++ left, offset⟩ =
        .ok (t, ⟨left, offset + byteLength t.descriptorChars⟩) :=
      readType_eq_ok.2 ⟨h t (by simp), rfl, rfl⟩
    obtain ⟨c, more, hchars, hc, -⟩ := exists_head t left
    rw [hchars, readParams_type hc, ← hchars, ht, ← hleft]
    refine (ih (fun t ht => h t (by simp [ht])) (by simpa using hbound) _ _).trans ?_
    simp [Nat.add_assoc]

/-! ## Whole descriptors -/

theorem readResult_type {c : Char} {cs : List Char} {offset : Nat} (hc : c ≠ 'V') :
    readResult ⟨c :: cs, offset⟩ =
      readType ⟨c :: cs, offset⟩ >>= fun x => .ok (some x.1, x.2) := by
  rw [readResult]
  split
  · next heq => cases heq
  · next heq =>
    cases heq
    exact absurd rfl hc
  · cases readType ⟨c :: cs, offset⟩ <;> rfl

theorem readResult_eq_ok {r rest : Rest} {result : Option FieldType} :
    readResult r = .ok (result, rest) ↔ (∀ t ∈ result, t.WellFormed) ∧
      r.chars = result.elim ['V'] FieldType.descriptorChars ++ rest.chars ∧
      rest.offset = r.offset + byteLength (result.elim ['V'] FieldType.descriptorChars) := by
  obtain ⟨chars, offset⟩ := r
  obtain ⟨left, place⟩ := rest
  have hsize : byteLength ['V'] = 1 := by decide
  cases chars with
  | nil =>
    refine iff_of_false (fun h => by cases h) ?_
    rintro ⟨-, hchars, -⟩
    cases result with
    | none => cases hchars
    | some t =>
      obtain ⟨c, cs, hhead, -⟩ := exists_head t left
      simp only [Option.elim_some, hhead] at hchars
      cases hchars
  | cons c cs =>
    by_cases hc : c = 'V'
    · subst hc
      have hread : readResult ⟨'V' :: cs, offset⟩ = .ok (none, ⟨cs, offset + 1⟩) := rfl
      rw [hread]
      cases result with
      | none => simp [hsize, eq_comm]
      | some t =>
        refine iff_of_false (fun h => by cases h) ?_
        rintro ⟨-, hchars, -⟩
        obtain ⟨d, ds, hhead, -, hd⟩ := exists_head t left
        simp only [Option.elim_some, hhead] at hchars
        cases hchars
        exact hd rfl
    · rw [readResult_type hc, bind_eq_ok]
      cases result with
      | none =>
        refine iff_of_false ?_ ?_
        · rintro ⟨x, -, h⟩
          cases h
        · rintro ⟨-, hchars, -⟩
          cases hchars
          exact hc rfl
      | some t =>
        constructor
        · rintro ⟨⟨t', rest⟩, ht, h⟩
          cases h
          simpa using readType_eq_ok.1 ht
        · intro h
          exact ⟨(t, ⟨left, place⟩), readType_eq_ok.2 (by simpa using h), rfl⟩

theorem finish_eq_ok {α : Type} {value found : α} {r : Rest} :
    finish value r = .ok found ↔ value = found ∧ r.chars = [] := by
  cases hchars : r.chars <;> simp [finish, hchars]

theorem descriptorChars_eq (m : MethodType) : m.descriptorChars =
    '(' :: m.params.flatMap FieldType.descriptorChars ++
      ')' :: m.result.elim ['V'] FieldType.descriptorChars := by
  obtain ⟨params, result⟩ := m
  cases result <;> rfl

theorem length_le_flatMap (params : List FieldType) :
    params.length ≤ (params.flatMap FieldType.descriptorChars).length := by
  induction params with
  | nil => exact Nat.le_refl _
  | cons t params ih =>
    obtain ⟨c, cs, hhead, -⟩ := exists_head t []
    rw [List.append_nil] at hhead
    rw [List.flatMap_cons, List.length_append, List.length_cons, hhead, List.length_cons]
    omega

theorem readMethodChars_eq_ok {cs : List Char} {m : MethodType} :
    readMethodChars cs = .ok m ↔ m.WellFormed ∧ cs = m.descriptorChars := by
  obtain ⟨params, result⟩ := m
  rw [descriptorChars_eq]
  constructor
  · intro h
    unfold readMethodChars at h
    split at h
    · next rest =>
      obtain ⟨⟨params', r⟩, hparams, h⟩ := bind_eq_ok.1 h
      obtain ⟨⟨result', r'⟩, hresult, h⟩ := bind_eq_ok.1 h
      obtain ⟨hm, hend⟩ := finish_eq_ok.1 h
      cases hm
      obtain ⟨more, rfl, hmore, hchars, -⟩ := readParams_eq_ok hparams
      obtain ⟨hwell, hrest, -⟩ := readResult_eq_ok.1 hresult
      refine ⟨⟨by simpa using hmore, hwell⟩, ?_⟩
      simp only at hrest hchars
      rw [hchars, hrest, hend]
      simp
    · cases h
  · rintro ⟨hwell, rfl⟩
    have hbound : params.length < (params.flatMap FieldType.descriptorChars ++
        ')' :: result.elim ['V'] FieldType.descriptorChars).length + 1 := by
      have := length_le_flatMap params
      rw [List.length_append]
      omega
    have hparams := readParams_append hwell.params hbound
      (result.elim ['V'] FieldType.descriptorChars) 1 []
    have hresult : readResult ⟨result.elim ['V'] FieldType.descriptorChars,
        1 + byteLength (params.flatMap FieldType.descriptorChars) + 1⟩ = .ok (result, ⟨[], _⟩) :=
      readResult_eq_ok.2 ⟨hwell.result, by simp, rfl⟩
    show readMethodChars ('(' :: (_ ++ _)) = _
    simp only [readMethodChars]
    refine bind_eq_ok.2 ⟨_, hparams, bind_eq_ok.2 ⟨_, hresult, ?_⟩⟩
    exact finish_eq_ok.2 ⟨rfl, rfl⟩

theorem readFieldChars_eq_ok {cs : List Char} {t : FieldType} :
    readFieldChars cs = .ok t ↔ t.WellFormed ∧ cs = t.descriptorChars := by
  unfold readFieldChars
  cases cs with
  | nil =>
    refine iff_of_false (fun h => by cases h) ?_
    rintro ⟨-, hchars⟩
    obtain ⟨c, cs, hhead, -⟩ := exists_head t []
    rw [← hchars] at hhead
    cases hhead
  | cons c cs =>
    rw [List.isEmpty_cons, if_neg Bool.false_ne_true, bind_eq_ok]
    constructor
    · rintro ⟨⟨t', rest⟩, ht, h⟩
      obtain ⟨rfl, hend⟩ := finish_eq_ok.1 h
      obtain ⟨hwell, hchars, -⟩ := readType_eq_ok.1 ht
      exact ⟨hwell, by simpa [hend] using hchars⟩
    · rintro ⟨hwell, hchars⟩
      exact ⟨(t, ⟨[], _⟩), readType_eq_ok.2 ⟨hwell, by simpa using hchars, rfl⟩,
        finish_eq_ok.2 ⟨rfl, rfl⟩⟩

variable {s : String}

theorem readMethod_eq_ok {m : MethodType} :
    readMethod s = .ok m ↔ m.WellFormed ∧ s.toList = m.descriptorChars := by
  rw [readMethod, mapError_eq_ok, readMethodChars_eq_ok]

theorem readField_eq_ok {t : FieldType} :
    readField s = .ok t ↔ t.WellFormed ∧ s.toList = t.descriptorChars := by
  rw [readField, mapError_eq_ok, readFieldChars_eq_ok]

/-- A method is read just from the text that its parameters and its result make up. -/
theorem map_readMethod_eq_ok {sig : Signature} :
    (readMethod s).map MethodType.signature = .ok sig ↔ sig.WellFormed ∧ s = sig.descriptor := by
  rw [map_eq_ok]
  constructor
  · rintro ⟨m, hread, rfl⟩
    obtain ⟨hwell, hchars⟩ := readMethod_eq_ok.1 hread
    refine ⟨MethodType.wellFormed_signature hwell, String.toList_inj.1 ?_⟩
    rw [hchars, MethodType.toList_descriptor_signature]
  · rintro ⟨hwell, rfl⟩
    obtain ⟨m, hm, rfl⟩ := MethodType.exists_of_wellFormed hwell
    exact ⟨m, readMethod_eq_ok.2 ⟨hm, MethodType.toList_descriptor_signature m⟩, rfl⟩

theorem map_readField_eq_ok {kind : ParamKind} :
    (readField s).map FieldType.kind = .ok kind ↔ kind.WellFormed ∧ s = kind.descriptor := by
  rw [map_eq_ok]
  constructor
  · rintro ⟨t, hread, rfl⟩
    obtain ⟨hwell, hchars⟩ := readField_eq_ok.1 hread
    refine ⟨FieldType.wellFormed_kind hwell, ?_⟩
    rw [FieldType.descriptor_kind, FieldType.descriptor, ← hchars, String.ofList_toList]
  · rintro ⟨hwell, rfl⟩
    obtain ⟨t, ht, rfl⟩ := FieldType.exists_of_wellFormed hwell
    refine ⟨t, readField_eq_ok.2 ⟨ht, ?_⟩, rfl⟩
    rw [FieldType.descriptor_kind, FieldType.descriptor, String.toList_ofList]

/-- Just the texts of the grammar are read. -/
theorem exists_readMethod_iff : (∃ m, readMethod s = .ok m) ↔ IsMethod s.toList := by
  constructor
  · rintro ⟨⟨params, result⟩, hread⟩
    obtain ⟨hwell, hchars⟩ := readMethod_eq_ok.1 hread
    rw [hchars, descriptorChars_eq, List.flatMap_def]
    refine .mk (fun cs hcs => ?_) ?_
    · obtain ⟨t, ht, rfl⟩ := List.mem_map.1 hcs
      exact FieldType.isType (hwell.params t ht)
    · cases result with
      | none => exact .inr rfl
      | some t => exact .inl (FieldType.isType (hwell.result t rfl))
  · intro h
    generalize htext : s.toList = text at h
    cases h with
    | @mk params result hparams hresult =>
      obtain ⟨types, htypes, rfl⟩ := exists_map_eq fun cs hcs =>
        FieldType.exists_of_isType (hparams cs hcs)
      have hresult : ∃ r : Option FieldType, (∀ t ∈ r, t.WellFormed) ∧
          r.elim ['V'] FieldType.descriptorChars = result := by
        rcases hresult with hresult | rfl
        · obtain ⟨t, ht, rfl⟩ := FieldType.exists_of_isType hresult
          exact ⟨some t, by simpa using ht, rfl⟩
        · exact ⟨none, by simp, rfl⟩
      obtain ⟨r, hr, rfl⟩ := hresult
      refine ⟨⟨types, r⟩, readMethod_eq_ok.2 ⟨⟨htypes, hr⟩, ?_⟩⟩
      rw [htext, descriptorChars_eq, List.flatMap_def]

theorem exists_readField_iff : (∃ t, readField s = .ok t) ↔ IsType s.toList := by
  constructor
  · rintro ⟨t, hread⟩
    obtain ⟨hwell, hchars⟩ := readField_eq_ok.1 hread
    rw [hchars]
    exact FieldType.isType hwell
  · intro h
    obtain ⟨t, hwell, hchars⟩ := FieldType.exists_of_isType h
    exact ⟨t, readField_eq_ok.2 ⟨hwell, hchars.symm⟩⟩

end Descriptor

end ValueCoverage
