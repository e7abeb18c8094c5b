import Mathlib.Data.List.Find
import ValueCoverage.Proofs.Descriptor.Grammar
import ValueCoverage.Proofs.Text.Utf8

/-!
# Descriptors read by places

Descriptors are also read by places in the bytes of their text: one byte is looked at after the
other, and class names and the texts of arrays are cut out of the text between two places. A text
cannot be cut inside a character, and this reading never tries to, since all the bytes that it looks
for are characters of their own; so it comes to the same.
-/

namespace ValueCoverage

open Text (byteLength)

namespace Text

/-! ## Cutting a text -/

/-- A character begins at the place, or the text ends there. -/
def isBoundary (bytes : Bytes) (place : Nat) : Bool :=
  place = bytes.length || bytes[place]?.any fun b => !isContinuation b

/-- The text between two places, unless they are out of order, behind the end or inside a
character. -/
def slice? (s : String) (start stop : Nat) : Option String :=
  if start ≤ stop ∧ isBoundary (Utf8.encode s) start = true ∧
      isBoundary (Utf8.encode s) stop = true then
    Utf8.decode? (((Utf8.encode s).drop start).take (stop - start))
  else none

/-- The place of the first such character. -/
def find? (c : Char) (s : String) : Option Nat :=
  if c ∈ s.toList then some (byteLength (s.toList.takeWhile (· != c))) else none

/-- The code of the byte at a place. -/
def codeAt? (s : String) (place : Nat) : Option Char :=
  (Utf8.encode s)[place]?.map fun b => Char.ofNat b.toNat

theorem length_flatMap_utf8EncodeChar (cs : List Char) :
    (cs.flatMap String.utf8EncodeChar).length = byteLength cs := by
  induction cs with
  | nil => rfl
  | cons c cs ih =>
    rw [List.flatMap_cons, List.length_append, String.length_utf8EncodeChar, ih, byteLength_cons]

/-- The first byte of a character tells whether it is the only one. -/
theorem exists_utf8EncodeChar (c : Char) : ∃ b more, String.utf8EncodeChar c = b :: more ∧
    isContinuation b = false ∧ (c.toNat < 0x80 → b.toNat = c.toNat) ∧
    (0x80 ≤ c.toNat → 0x80 ≤ b.toNat) := by
  have hc : c.val.toNat = c.toNat := rfl
  have hlt : c.toNat < 0x110000 := by
    have := c.valid
    simp only [UInt32.isValidChar, Nat.isValidChar] at this
    omega
  unfold String.utf8EncodeChar isContinuation
  simp only [hc]
  repeat' split
  all_goals
    refine ⟨_, _, rfl, ?_, ?_, ?_⟩ <;>
      simp only [UInt8.toNat_ofNat', decide_eq_false_iff_not] <;> omega

/-- A character begins where other characters end. -/
theorem isBoundary_append (front back : List Char) :
    isBoundary (front.flatMap String.utf8EncodeChar ++ back.flatMap String.utf8EncodeChar)
      (byteLength front) = true := by
  rw [← length_flatMap_utf8EncodeChar]
  cases back with
  | nil => simp [isBoundary]
  | cons c cs =>
    obtain ⟨b, more, hbytes, hb, -⟩ := exists_utf8EncodeChar c
    simp [isBoundary, hbytes, hb]

/-- Characters that follow each other can be cut out. -/
theorem slice?_append {s : String} {front cut back : List Char}
    (h : s.toList = front ++ (cut ++ back)) :
    slice? s (byteLength front) (byteLength front + byteLength cut) = some (String.ofList cut) := by
  have hbytes : Utf8.encode s = front.flatMap String.utf8EncodeChar ++
      (cut.flatMap String.utf8EncodeChar ++ back.flatMap String.utf8EncodeChar) := by
    rw [Utf8.encode, h, List.flatMap_append, List.flatMap_append]
  have hstart : isBoundary (Utf8.encode s) (byteLength front) = true := by
    rw [hbytes, ← List.flatMap_append]
    exact isBoundary_append front (cut ++ back)
  have hstop : isBoundary (Utf8.encode s) (byteLength front + byteLength cut) = true := by
    rw [hbytes, ← List.append_assoc, ← List.flatMap_append, ← byteLength_append]
    exact isBoundary_append (front ++ cut) back
  have hcut : ((Utf8.encode s).drop (byteLength front)).take (byteLength cut) =
      Utf8.encode (String.ofList cut) := by
    rw [hbytes, List.drop_left' (length_flatMap_utf8EncodeChar front),
      List.take_left' (length_flatMap_utf8EncodeChar cut), Utf8.encode, String.toList_ofList]
  rw [slice?, if_pos ⟨Nat.le_add_right _ _, hstart, hstop⟩, Nat.add_sub_cancel_left, hcut,
    Utf8.decode?_encode]

end Text

namespace Descriptor

/-- What is left of a text starts at its place. -/
def Rest.Within (r : Rest) (s : String) : Prop :=
  ∃ front, s.toList = front ++ r.chars ∧ byteLength front = r.offset

namespace Rest.Within

variable {s : String} {r : Rest}

theorem advance (h : r.Within s) {front rest : List Char} (hchars : r.chars = front ++ rest) :
    Rest.Within ⟨rest, r.offset + byteLength front⟩ s := by
  obtain ⟨before, hs, hoffset⟩ := h
  refine ⟨before ++ front, ?_, ?_⟩
  · rw [hs, hchars, List.append_assoc]
  · rw [Text.byteLength_append, hoffset]

theorem slice? (h : r.Within s) {cut rest : List Char} (hchars : r.chars = cut ++ rest) :
    Text.slice? s r.offset (r.offset + byteLength cut) = some (String.ofList cut) := by
  obtain ⟨before, hs, hoffset⟩ := h
  rw [← hoffset]
  exact Text.slice?_append (by rw [hs, hchars])

theorem drop_encode (h : r.Within s) :
    (Text.Utf8.encode s).drop r.offset = r.chars.flatMap String.utf8EncodeChar := by
  obtain ⟨before, hs, hoffset⟩ := h
  rw [Text.Utf8.encode, hs, List.flatMap_append,
    List.drop_left' ((Text.length_flatMap_utf8EncodeChar before).trans hoffset)]

theorem length_encode (h : r.Within s) :
    (Text.Utf8.encode s).length = r.offset + byteLength r.chars := by
  obtain ⟨before, hs, hoffset⟩ := h
  rw [Text.Utf8.encode, Text.length_flatMap_utf8EncodeChar, hs, Text.byteLength_append, hoffset]

theorem codeAt? (h : r.Within s) : Text.codeAt? s r.offset = r.chars.head?.map leadingByte := by
  have hhead : (Text.Utf8.encode s)[r.offset]? =
      (r.chars.flatMap String.utf8EncodeChar).head? := by
    rw [← h.drop_encode, List.head?_drop]
  rw [Text.codeAt?, hhead]
  cases r.chars with
  | nil => rfl
  | cons c cs =>
    obtain ⟨b, more, hbytes, -⟩ := Text.exists_utf8EncodeChar c
    simp [leadingByte, hbytes]

/-- The text ends just where nothing is left. -/
theorem offset_eq_length_iff (h : r.Within s) :
    r.offset = (Text.Utf8.encode s).length ↔ r.chars = [] := by
  rw [h.length_encode]
  cases r.chars with
  | nil => simp
  | cons c cs =>
    have := c.utf8Size_pos
    simp
    omega

end Rest.Within

/-- A byte below 128 is a character of its own. -/
theorem leadingByte_eq_iff {a : Char} (ha : a.toNat < 0x80) (c : Char) :
    leadingByte c = a ↔ c = a := by
  obtain ⟨b, more, hbytes, -, hlow, hhigh⟩ := Text.exists_utf8EncodeChar c
  have hlead : leadingByte c = Char.ofNat b.toNat := by
    simp only [leadingByte, hbytes]
  have hb : (Char.ofNat b.toNat).toNat = b.toNat := by
    have hlt := b.toNat_lt
    have hvalid : b.toNat.isValidChar := .inl (by omega)
    rw [Char.ofNat, dif_pos hvalid]
    rfl
  rw [hlead]
  constructor
  · rintro rfl
    rw [hb] at ha
    have hc : c.toNat < 0x80 := by
      by_contra hc
      have := hhigh (by omega)
      omega
    rw [hlow hc, Char.ofNat_toNat]
  · rintro rfl
    rw [hlow ha, Char.ofNat_toNat]

theorem ofTag?_leadingByte (c : Char) :
    Primitive.ofTag? (leadingByte c) = Primitive.ofTag? c := by
  unfold Primitive.ofTag?
  refine List.find?_congr fun p _ => ?_
  have hlow : p.tag.toNat < 0x80 := by cases p <;> decide
  rw [decide_eq_decide, eq_comm, leadingByte_eq_iff hlow, eq_comm]

namespace ByPlaces

/-! ## Reading by places -/

/-- What reading comes to; nothing if it would cut a character. -/
abbrev Cutting := ExceptT DescriptorFault Option

/-- How many brackets stand at a place. -/
def bracketsAt (s : String) (place : Nat) : Nat :=
  (((Text.Utf8.encode s).drop place).takeWhile (· = 0x5B)).length

/-- Where the type ends whose letter stands at a place. -/
def typeEnd (s : String) (place : Nat) (code : Char) : Cutting Nat :=
  if code = 'L' then do
    let behind ← ExceptT.lift (Text.slice? s place (Text.Utf8.encode s).length)
    match Text.find? ';' behind with
    | some n => return place + n + 1
    | none => throw (.unclosedClassName place)
  else if (Primitive.ofTag? code).isSome then return place + 1
  else throw (.unknownTypeCode code place)

/-- The type from `start` to `stop` whose letter stands at `place`. -/
def kindBetween (s : String) (start place stop : Nat) (code : Char) : Cutting ParamKind :=
  if start < place then do
    let text ← ExceptT.lift (Text.slice? s start stop)
    return .array text
  else if code = 'L' then do
    let name ← ExceptT.lift (Text.slice? s (place + 1) (stop - 1))
    return .object name
  else
    match Primitive.ofTag? code with
    | some kind => return .primitive kind
    | none => throw (.unknownTypeCode code place)

/-- Reads the type at a place, and tells where it ends. -/
def readType (s : String) (start : Nat) : Cutting (ParamKind × Nat) :=
  let place := start + bracketsAt s start
  match Text.codeAt? s place with
  | none => throw .unclosedParameterList
  | some code => do
    let stop ← typeEnd s place code
    let kind ← kindBetween s start place stop code
    return (kind, stop)

/-- Reads types up to the closing parenthesis. -/
def readParams (s : String) :
    (bound place : Nat) → List ParamKind → Cutting (List ParamKind × Nat)
  | 0, _, _ => throw .unclosedParameterList
  | bound + 1, place, done =>
    match Text.codeAt? s place with
    | none => throw .unclosedParameterList
    | some code =>
      if code = ')' then return (done.reverse, place + 1)
      else do
        let (kind, next) ← readType s place
        readParams s bound next (kind :: done)

def readResult (s : String) (place : Nat) : Cutting (Option ParamKind × Nat) :=
  match Text.codeAt? s place with
  | none => throw .noResultType
  | some code =>
    if code = 'V' then return (none, place + 1)
    else do
      let (kind, next) ← readType s place
      return (some kind, next)

/-- Nothing may follow. -/
def finish {α : Type} (s : String) (value : α) (place : Nat) : Cutting α :=
  if place = (Text.Utf8.encode s).length then return value else throw (.trailing place)

/-- Reads all of a method descriptor. -/
def readMethod (s : String) (bound : Nat) : Cutting Signature :=
  if Text.codeAt? s 0 = some '(' then do
    let (params, place) ← readParams s bound 1 []
    let (result, place) ← readResult s place
    finish s ⟨params, result⟩ place
  else throw .noParameterList

/-- Reads all of a field descriptor. -/
def readField (s : String) : Cutting ParamKind :=
  if s.toList.isEmpty then throw .noResultType
  else do
    let (kind, place) ← readType s 0
    finish s kind place

/-! ## The same reading -/

/-- The reading by places comes to an answer without a cut. -/
def Answers {α : Type} (x : Cutting α) (answer : Except DescriptorFault α) : Prop :=
  x.run = some answer

section Answers

variable {α β : Type} {a : α} {fault : DescriptorFault} {x : Cutting α} {f : α → Cutting β}
  {answer : Except DescriptorFault β}

theorem answers_pure : Answers (pure a) (.ok a) := rfl

theorem answers_throw : Answers (throw fault : Cutting α) (.error fault) := rfl

theorem answers_lift {found : Option α} (h : found = some a) :
    Answers (ExceptT.lift found) (.ok a) := by
  subst h
  rfl

theorem Answers.bind (hx : Answers x (.ok a)) (hf : Answers (f a) answer) :
    Answers (x >>= f) answer := by
  have hx : x = ExceptT.mk (some (.ok a)) := hx
  rw [hx]
  exact hf

theorem Answers.fail (hx : Answers x (.error fault)) : Answers (x >>= f) (.error fault) := by
  have hx : x = ExceptT.mk (some (.error fault)) := hx
  rw [hx]
  rfl

/-- One step behind the other on both sides. -/
theorem Answers.bind_map {γ δ : Type} {found : Except DescriptorFault γ} {g : γ → α}
    {k : γ → Except DescriptorFault δ} {g' : δ → β} (hx : Answers x (found.map g))
    (hf : ∀ c, found = .ok c → Answers (f (g c)) ((k c).map g')) :
    Answers (x >>= f) ((found >>= k).map g') := by
  cases found with
  | error fault => exact hx.fail
  | ok c => exact hx.bind (hf c rfl)

end Answers

section

variable {s : String} {r : Rest}

theorem bracketsAt_eq (h : r.Within s) :
    bracketsAt s r.offset = (r.chars.takeWhile (· = '[')).length := by
  rw [bracketsAt, h.drop_encode]
  generalize r.chars = cs
  induction cs with
  | nil => rfl
  | cons c cs ih =>
    by_cases hc : c = '['
    · subst hc
      have hbytes : String.utf8EncodeChar '[' = [0x5B] := by decide
      simp [hbytes, ih]
    · obtain ⟨b, more, hbytes, -, hlow, hhigh⟩ := Text.exists_utf8EncodeChar c
      have hb : b ≠ 0x5B := by
        rintro rfl
        by_cases hlow' : c.toNat < 0x80
        · have heq := hlow hlow'
          rw [← Char.ofNat_toNat c, ← heq] at hc
          exact hc rfl
        · exact absurd (hhigh (by omega)) (by decide)
      simp [hbytes, hb, hc]

/-- A letter that is behind brackets. -/
theorem readType_brackets (n : Nat) {body : List Char} (hbody : body.head? ≠ some '[')
    (offset : Nat) : Descriptor.readType ⟨List.replicate n '[' ++ body, offset⟩ =
      (readBase ⟨body, offset + n⟩).map fun x => (⟨n, x.1⟩, x.2) := by
  obtain ⟨htake, hdrop⟩ := brackets_append n hbody
  simp only [Descriptor.readType, htake, hdrop, List.length_replicate]
  cases readBase ⟨body, offset + n⟩ <;> rfl

theorem find?_append {c : Char} {front : List Char} (h : c ∉ front) (back : List Char) :
    Text.find? c (String.ofList (front ++ c :: back)) = some (byteLength front) := by
  obtain ⟨htake, -⟩ := cut_at_first.2 ⟨h, rfl, rfl⟩
  rw [Text.find?, String.toList_ofList, if_pos (by simp), htake]

theorem typeEnd_object {cs : List Char} {offset : Nat}
    (h : Rest.Within ⟨'L' :: cs, offset⟩ s) :
    Answers (typeEnd s offset 'L') ((readBase ⟨'L' :: cs, offset⟩).map fun x => x.2.offset) := by
  have hslice : Text.slice? s offset (Text.Utf8.encode s).length =
      some (String.ofList ('L' :: cs)) := by
    have hall : 'L' :: cs = ('L' :: cs) ++ [] := (List.append_nil _).symm
    rw [h.length_encode]
    exact h.slice? hall
  unfold typeEnd
  rw [if_pos rfl]
  refine (answers_lift hslice).bind ?_
  cases hdrop : cs.dropWhile (· != ';') with
  | nil =>
    have hnone : ';' ∉ 'L' :: cs := by
      have hall := List.dropWhile_eq_nil_iff.1 hdrop
      rw [List.mem_cons, not_or]
      exact ⟨by decide, fun hmem => by simpa using hall _ hmem⟩
    have hfind : Text.find? ';' (String.ofList ('L' :: cs)) = none := by
      rw [Text.find?, String.toList_ofList, if_neg hnone]
    have hread : readBase ⟨'L' :: cs, offset⟩ = .error (.unclosedClassName offset) := by
      simp only [readBase, if_pos, hdrop]
    rw [hread, hfind]
    exact answers_throw
  | cons d more =>
    obtain ⟨hname, rfl, hcs⟩ := cut_at_first.1 ⟨rfl, hdrop⟩
    have hname' : ';' ∉ 'L' :: cs.takeWhile (· != ';') := by
      simp [hname]
    have hfind : Text.find? ';' (String.ofList ('L' :: cs)) =
        some (1 + byteLength (cs.takeWhile (· != ';'))) := by
      have hone : 'L'.utf8Size = 1 := by decide
      have hfound := find?_append hname' more
      rwa [List.cons_append, ← hcs, Text.byteLength_cons, hone] at hfound
    have hread : readBase ⟨'L' :: cs, offset⟩ =
        .ok (.object (String.ofList (cs.takeWhile (· != ';'))),
          ⟨more, offset + (1 + byteLength (cs.takeWhile (· != ';'))) + 1⟩) := by
      simp only [readBase, if_pos, hdrop, Nat.add_assoc]
    rw [hread, hfind]
    exact answers_pure

theorem typeEnd_answers {c : Char} {cs : List Char} {offset : Nat}
    (h : Rest.Within ⟨c :: cs, offset⟩ s) :
    Answers (typeEnd s offset (leadingByte c))
      ((readBase ⟨c :: cs, offset⟩).map fun x => x.2.offset) := by
  by_cases hc : c = 'L'
  · subst hc
    exact typeEnd_object h
  · have hlead : leadingByte c ≠ 'L' := mt (leadingByte_eq_iff (by decide) c).1 hc
    unfold typeEnd
    rw [if_neg hlead, ofTag?_leadingByte]
    simp only [readBase, if_neg hc]
    cases Primitive.ofTag? c with
    | none => exact answers_throw
    | some kind => exact answers_pure

/-- The first letter of a type without brackets. -/
def letter : BaseType → Char
  | .primitive kind => kind.tag
  | .object _ => 'L'

theorem leadingByte_letter {base : BaseType} {c : Char} {cs rest : List Char}
    (h : c :: cs = base.descriptor ++ rest) : leadingByte c = letter base := by
  cases base with
  | primitive kind =>
    obtain ⟨rfl, -⟩ := List.cons.inj h
    have hlow : kind.tag.toNat < 0x80 := by cases kind <;> decide
    exact (leadingByte_eq_iff hlow _).2 rfl
  | object name =>
    obtain ⟨rfl, -⟩ := List.cons.inj h
    exact (leadingByte_eq_iff (a := 'L') (by decide) _).2 rfl

theorem kindBetween_answers {t : FieldType} {rest : List Char} (h : r.Within s)
    (hchars : r.chars = t.descriptorChars ++ rest) :
    Answers (kindBetween s r.offset (r.offset + t.dims)
      (r.offset + byteLength t.descriptorChars) (letter t.base)) (.ok t.kind) := by
  obtain ⟨n, base⟩ := t
  unfold kindBetween
  cases n with
  | succ n =>
    rw [if_pos (by simp only; omega)]
    exact (answers_lift (h.slice? hchars)).bind answers_pure
  | zero =>
    rw [if_neg (by simp only; omega)]
    cases base with
    | primitive kind =>
      simp only [letter, if_neg kind.tag_ne.1, Primitive.ofTag?_tag]
      exact answers_pure
    | object name =>
      simp only [letter, if_true]
      have hletter : r.chars = ['L'] ++ (name.toList ++ ';' :: rest) := by
        rw [hchars]
        simp [FieldType.descriptorChars, BaseType.descriptor]
      have hname : Rest.Within ⟨name.toList ++ ';' :: rest, r.offset + 1⟩ s := h.advance hletter
      have hplace : r.offset + byteLength (FieldType.descriptorChars ⟨0, .object name⟩) - 1 =
          r.offset + 1 + byteLength name.toList := by
        have hsizes : 'L'.utf8Size = 1 ∧ ';'.utf8Size = 1 := by decide
        simp [FieldType.descriptorChars, BaseType.descriptor, hsizes]
        omega
      have hslice := hname.slice? rfl
      rw [String.ofList_toList, ← hplace] at hslice
      exact (answers_lift hslice).bind answers_pure

theorem readType_answers (h : r.Within s) : Answers (readType s r.offset)
    ((Descriptor.readType r).map fun x => (x.1.kind, x.2.offset)) := by
  obtain ⟨chars, offset⟩ := r
  obtain ⟨n, body, rfl, hbody⟩ : ∃ n body, chars = List.replicate n '[' ++ body ∧
      body.head? ≠ some '[' := by
    refine ⟨(chars.takeWhile (· = '[')).length, chars.dropWhile (· = '['), ?_, ?_⟩
    · rw [← takeWhile_bracket, List.takeWhile_append_dropWhile]
    · intro hhead
      have hnot := List.head?_dropWhile_not (· = '[') chars
      rw [hhead] at hnot
      simp at hnot
  have hcount : bracketsAt s offset = n := by
    have hcount := bracketsAt_eq h
    rwa [(brackets_append n hbody).1, List.length_replicate] at hcount
  have hplace : Rest.Within ⟨body, offset + n⟩ s := by
    have hsplit : Rest.chars ⟨List.replicate n '[' ++ body, offset⟩ =
        List.replicate n '[' ++ body := rfl
    have hplace := h.advance hsplit
    rwa [byteLength_brackets] at hplace
  have hcode := hplace.codeAt?
  rw [readType_brackets n hbody]
  unfold readType
  simp only at hcode ⊢
  rw [hcount, hcode]
  cases body with
  | nil => exact answers_throw
  | cons c cs =>
    have hend := typeEnd_answers hplace
    simp only [List.head?_cons, Option.map_some]
    cases hread : readBase ⟨c :: cs, offset + n⟩ with
    | error fault =>
      rw [hread] at hend
      exact Answers.fail hend
    | ok found =>
      obtain ⟨base, rest⟩ := found
      rw [hread] at hend
      obtain ⟨-, hchars, hrest⟩ := readBase_eq_ok.1 hread
      have hall : List.replicate n '[' ++ c :: cs =
          FieldType.descriptorChars ⟨n, base⟩ ++ rest.chars := by
        rw [FieldType.descriptorChars, List.append_assoc, ← hchars]
      have hstop : rest.offset = offset + byteLength (FieldType.descriptorChars ⟨n, base⟩) := by
        rw [hrest, FieldType.descriptorChars, Text.byteLength_append, byteLength_brackets,
          Nat.add_assoc]
      have hkind := kindBetween_answers h hall
      rw [← leadingByte_letter hchars, ← hstop] at hkind
      exact hend.bind (hkind.bind answers_pure)

/-! ## Lists and whole descriptors -/

theorem within_of_readType {t : FieldType} {rest : Rest} (h : r.Within s)
    (hread : Descriptor.readType r = .ok (t, rest)) : rest.Within s := by
  obtain ⟨-, hchars, hoffset⟩ := readType_eq_ok.1 hread
  have hrest := h.advance hchars
  rwa [← hoffset] at hrest

theorem within_of_readParams {bound : Nat} {done params : List FieldType} {rest : Rest}
    (h : r.Within s) (hread : Descriptor.readParams bound r done = .ok (params, rest)) :
    rest.Within s := by
  obtain ⟨more, -, -, hchars, hoffset⟩ := readParams_eq_ok hread
  have hone : byteLength [')'] = 1 := by decide
  have hsplit : r.chars = (more.flatMap FieldType.descriptorChars ++ [')']) ++ rest.chars := by
    rw [hchars, List.append_assoc]
    rfl
  have hrest := h.advance hsplit
  rwa [Text.byteLength_append, hone, ← Nat.add_assoc, ← hoffset] at hrest

theorem within_of_readResult {result : Option FieldType} {rest : Rest} (h : r.Within s)
    (hread : Descriptor.readResult r = .ok (result, rest)) : rest.Within s := by
  obtain ⟨-, hchars, hoffset⟩ := readResult_eq_ok.1 hread
  have hrest := h.advance hchars
  rwa [← hoffset] at hrest

theorem readParams_answers (h : r.Within s) (bound : Nat) (done : List FieldType) :
    Answers (readParams s bound r.offset (done.map FieldType.kind))
      ((Descriptor.readParams bound r done).map fun x =>
        (x.1.map FieldType.kind, x.2.offset)) := by
  induction bound generalizing r done with
  | zero => exact answers_throw
  | succ bound ih =>
    have hcode := h.codeAt?
    rw [readParams, hcode]
    have htype := readType_answers h
    obtain ⟨chars, offset⟩ := r
    cases chars with
    | nil => exact answers_throw
    | cons c cs =>
      simp only [List.head?_cons, Option.map_some]
      by_cases hc : c = ')'
      · subst hc
        rw [readParams_close, if_pos ((leadingByte_eq_iff (by decide) _).2 rfl)]
        rw [← List.map_reverse]
        exact answers_pure
      · rw [readParams_type hc, if_neg (mt (leadingByte_eq_iff (by decide) c).1 hc)]
        exact htype.bind_map fun found hread => ih (within_of_readType h hread) (found.1 :: done)

theorem readResult_answers (h : r.Within s) : Answers (readResult s r.offset)
    ((Descriptor.readResult r).map fun x => (x.1.map FieldType.kind, x.2.offset)) := by
  have hcode := h.codeAt?
  rw [readResult, hcode]
  have htype := readType_answers h
  obtain ⟨chars, offset⟩ := r
  cases chars with
  | nil => exact answers_throw
  | cons c cs =>
    simp only [List.head?_cons, Option.map_some]
    by_cases hc : c = 'V'
    · subst hc
      rw [if_pos ((leadingByte_eq_iff (by decide) _).2 rfl)]
      exact answers_pure
    · rw [readResult_type hc, if_neg (mt (leadingByte_eq_iff (by decide) c).1 hc)]
      exact htype.bind_map fun found _ => answers_pure

theorem finish_answers {α β : Type} (h : r.Within s) (f : α → β) (value : α) :
    Answers (finish s (f value) r.offset) ((Descriptor.finish value r).map f) := by
  have hend := h.offset_eq_length_iff
  unfold finish Descriptor.finish
  cases hchars : r.chars with
  | nil =>
    rw [if_pos (hend.2 hchars)]
    exact answers_pure
  | cons c cs =>
    rw [if_neg (mt hend.1 (by simp [hchars]))]
    exact answers_throw

end

theorem readMethod_answers (s : String) (extra : Nat) :
    Answers (readMethod s (s.toList.length + extra))
      ((readMethodChars s.toList).map MethodType.signature) := by
  have hcode := Rest.Within.codeAt? (s := s) (r := ⟨s.toList, 0⟩) ⟨[], rfl, rfl⟩
  simp only at hcode
  unfold readMethod
  rw [hcode]
  cases hs : s.toList with
  | nil => exact answers_throw
  | cons c cs =>
    simp only [List.head?_cons, Option.map_some, Option.some.injEq]
    by_cases hc : c = '('
    · subst hc
      have hwithin : Rest.Within ⟨cs, 1⟩ s := ⟨['('], hs, rfl⟩
      have hparams := readParams_answers hwithin (cs.length + 1 + extra) []
      rw [readParams_add (Nat.lt_succ_self cs.length)] at hparams
      rw [if_pos ((leadingByte_eq_iff (by decide) _).2 rfl)]
      simp only [readMethodChars, List.length_cons]
      refine hparams.bind_map fun params hread => ?_
      have hr := within_of_readParams hwithin hread
      refine (readResult_answers hr).bind_map fun result hread' => ?_
      exact finish_answers (within_of_readResult hr hread') MethodType.signature
        ⟨params.1, result.1⟩
    · rw [if_neg (mt (leadingByte_eq_iff (by decide) c).1 hc)]
      have hread : readMethodChars (c :: cs) = .error .noParameterList := by
        unfold readMethodChars
        split
        · next heq =>
          cases heq
          exact absurd rfl hc
        · rfl
      rw [hread]
      exact answers_throw

theorem readField_answers (s : String) : Answers (readField s)
    ((readFieldChars s.toList).map FieldType.kind) := by
  have hwithin : Rest.Within ⟨s.toList, 0⟩ s := ⟨[], rfl, rfl⟩
  have htype := readType_answers hwithin
  unfold readField readFieldChars
  by_cases hempty : s.toList.isEmpty = true
  · rw [if_pos hempty, if_pos hempty]
    exact answers_throw
  · rw [if_neg hempty, if_neg hempty]
    exact htype.bind_map fun found hread =>
      finish_answers (within_of_readType hwithin hread) FieldType.kind found.1

/-- What reading by places comes to, with the text that it was about. -/
def answer {α : Type} (s : String) (x : Cutting α) : Option (Except DescriptorError α) :=
  x.run.map (·.mapError (DescriptorError.mk s))

theorem Answers.answer {α β : Type} {s : String} {x : Cutting β} {found : Except DescriptorFault α}
    {f : α → β} (h : Answers x (found.map f)) :
    answer s x = some ((found.mapError (DescriptorError.mk s)).map f) := by
  rw [ByPlaces.answer, h]
  cases found <;> rfl

end ByPlaces

/-- **Descriptors are read as they are written**: a method descriptor is read just if it is made of
the texts of its parameters in parentheses and the text of its result, all of them well formed, and
then that is what it is read as; so is a field descriptor. The texts that are read are just those of
the grammar. Reading by places, under any bound that is not below the length of the text, comes to
the same answer for every text, and no text is cut inside a character. -/
theorem read_iff_written (s : String) :
    (∀ sig, (readMethod s).map MethodType.signature = .ok sig ↔
      sig.WellFormed ∧ s = sig.descriptor) ∧
    (∀ kind, (readField s).map FieldType.kind = .ok kind ↔
      kind.WellFormed ∧ s = kind.descriptor) ∧
    ((∃ m, readMethod s = .ok m) ↔ IsMethod s.toList) ∧
    ((∃ t, readField s = .ok t) ↔ IsType s.toList) ∧
    (∀ extra, ByPlaces.answer s (ByPlaces.readMethod s (s.toList.length + extra)) =
      some ((readMethod s).map MethodType.signature)) ∧
    ByPlaces.answer s (ByPlaces.readField s) = some ((readField s).map FieldType.kind) :=
  ⟨fun _ => map_readMethod_eq_ok, fun _ => map_readField_eq_ok, exists_readMethod_iff,
    exists_readField_iff,
    fun extra => (ByPlaces.readMethod_answers s extra).answer,
    (ByPlaces.readField_answers s).answer⟩

/-- Parentheses and brackets may stand in a class name. -/
example : (readMethod "([[Lé)[;IL(;)V").map MethodType.signature =
    .ok ⟨[.array "[[Lé)[;", .primitive .int, .object "("], none⟩ := by decide

end Descriptor

end ValueCoverage
