import ValueCoverage.Observation.Codec
import ValueCoverage.Proofs.Number.FloatText
import ValueCoverage.Proofs.Observation.Canonical

/-!
# What the typed codec keeps

A value is written with the tag of its type and a literal, and both are read back. The literal of a
floating-point value that is not a number is a word, whatever its bits are; all such values of a
type are written alike, and are read back as the usual one. Everything else comes back as it was.
-/

namespace ValueCoverage

/-- The value that is read back: where bits stand for no number, the usual such bits. -/
def Value.quieted : Value → Value
  | .float bits => .float (if (Number.decode .single bits.toNat).isNan then 0x7FC00000 else bits)
  | .double bits =>
    .double (if (Number.decode .double bits.toNat).isNan then 0x7FF8000000000000 else bits)
  | v => v

namespace Codec

open Number (NumberChar)

theorem escapeChar_of_numberChar {c : Char} (h : NumberChar c) : ItemList.escapeChar c = [c] := by
  have hne : c ≠ '\\' ∧ c ≠ ',' ∧ c ≠ '\n' ∧ c ≠ '\r' := by
    refine ⟨?_, ?_, ?_, ?_⟩ <;> rintro rfl <;> revert h <;> decide
  rw [ItemList.escapeChar, if_neg hne.1, if_neg hne.2.1, if_neg hne.2.2.1, if_neg hne.2.2.2]

/-- A value is written as a tag and a literal, from which it is read. -/
structure Tagged (v : Value) (tag : Char) (literal : String) : Prop where
  tag_ne : tag ≠ ':'
  writes : ItemList.Writes (typedItem v).toList (tag :: ':' :: literal.toList)
  read : readLiteral? (String.ofList [tag]) literal = some (some v.quieted)

theorem Tagged.readTypedItem {v : Value} {tag : Char} {literal : String}
    (h : Tagged v tag literal) :
    readTypedItem (String.ofList (tag :: ':' :: literal.toList)) = .ok v.quieted := by
  -- the tag is cut off at the first colon, whatever the literal holds
  have hnull : String.ofList (tag :: ':' :: literal.toList) ≠ "N" := by
    intro heq
    have := congrArg String.toList heq
    rw [String.toList_ofList] at this
    exact absurd this (by simp)
  have hsplit : Text.splitFirst ':' (tag :: ':' :: literal.toList) =
      some ([tag], literal.toList) :=
    Text.splitFirst_append (fun hmem => h.tag_ne (List.mem_singleton.1 hmem).symm) literal.toList
  rw [Codec.readTypedItem, if_neg hnull, String.toList_ofList, hsplit]
  simp only [String.ofList_toList, h.read]

/-! ## Every kind of value -/

/-- Texts of numbers and words have nothing to escape. -/
theorem Tagged.of_numberChars {v : Value} {tag : Char} {literal : String} (htag : NumberChar tag)
    (hitem : (typedItem v).toList = tag :: ':' :: literal.toList)
    (hliteral : ∀ c ∈ literal.toList, NumberChar c)
    (hread : readLiteral? (String.ofList [tag]) literal = some (some v.quieted)) :
    Tagged v tag literal where
  tag_ne := by
    rintro rfl
    revert htag
    decide
  writes := by
    rw [hitem]
    refine .of_escape (ItemList.escape_eq_self (List.cons_ne_nil _ _) fun c hc => ?_)
    rcases List.mem_cons.1 hc with rfl | hc
    · exact escapeChar_of_numberChar htag
    rcases List.mem_cons.1 hc with rfl | hc
    · rfl
    · exact escapeChar_of_numberChar (hliteral c hc)
  read := hread

theorem tagged_boolean (b : Bool) : Tagged (.boolean b) 'Z' (Value.boolText b) := by
  cases b with
  | false => exact .of_numberChars (by decide) rfl (.of_all (by decide)) rfl
  | true => exact .of_numberChars (by decide) rfl (.of_all (by decide)) rfl

/-- The kinds of signed integers differ in their limit and in what is made of the number. -/
theorem Tagged.of_signed {v : Value} {tag : Char} {n : Int} (limit : Nat) (make : Int → Value)
    (hn : -(limit + 1) ≤ n ∧ n ≤ limit) (htag : NumberChar tag)
    (hitem : (typedItem v).toList = tag :: ':' :: (toString n).toList)
    (hread : ∀ literal, readLiteral? (String.ofList [tag]) literal =
      some ((Number.readSigned limit literal).toOption.map make))
    (hmake : make n = v.quieted) : Tagged v tag (toString n) := by
  refine .of_numberChars htag hitem (fun c => .of_mem_toString) ?_
  rw [hread, Number.readSigned_toString hn.1 hn.2, ← hmake]
  rfl

theorem tagged_byte (n : Int8) : Tagged (.byte n) 'B' (toString n.toInt) :=
  .of_signed 0x7F (fun n => .byte (Int8.ofInt n)) ⟨n.le_toInt, Int.le_of_lt_add_one n.toInt_lt⟩
    (by decide) (String.toList_append ..) (fun _ => rfl) (by rw [Int8.ofInt_toInt]; rfl)

theorem tagged_short (n : Int16) : Tagged (.short n) 'S' (toString n.toInt) :=
  .of_signed 0x7FFF (fun n => .short (Int16.ofInt n)) ⟨n.le_toInt, Int.le_of_lt_add_one n.toInt_lt⟩
    (by decide) (String.toList_append ..) (fun _ => rfl) (by rw [Int16.ofInt_toInt]; rfl)

theorem tagged_int (n : Int32) : Tagged (.int n) 'I' (toString n.toInt) :=
  .of_signed 0x7FFFFFFF (fun n => .int (Int32.ofInt n))
    ⟨n.le_toInt, Int.le_of_lt_add_one n.toInt_lt⟩
    (by decide) (String.toList_append ..) (fun _ => rfl) (by rw [Int32.ofInt_toInt]; rfl)

theorem tagged_long (n : Int64) : Tagged (.long n) 'J' (toString n.toInt) :=
  .of_signed 0x7FFFFFFFFFFFFFFF (fun n => .long (Int64.ofInt n))
    ⟨n.le_toInt, Int.le_of_lt_add_one n.toInt_lt⟩
    (by decide) (String.toList_append ..) (fun _ => rfl) (by rw [Int64.ofInt_toInt]; rfl)

theorem tagged_char (unit : UInt16) : Tagged (.char unit) 'C' (toString unit.toNat) := by
  refine .of_numberChars (by decide) (String.toList_append ..) (fun c => .of_mem_toString_nat) ?_
  have hread : readLiteral? (String.ofList ['C']) (toString unit.toNat) =
      some ((Number.readNatural 0xFFFF (toString unit.toNat)).toOption.map
        fun n => .char (UInt16.ofNat n)) := rfl
  rw [hread, Number.readNatural_toString (Nat.le_of_lt_succ unit.toNat_lt)]
  show some (some (Value.char (UInt16.ofNat unit.toNat))) = _
  rw [UInt16.ofNat_toNat]
  rfl

/-- The two formats differ in what is made of the bits. -/
theorem Tagged.of_floatText {f : Number.Format} (hf : f.Usual) {v : Value} {tag : Char} {bits : Nat}
    (make : Nat → Value) (hbits : bits < 2 * f.signBit) (htag : NumberChar tag)
    (hitem : (typedItem v).toList =
      tag :: ':' :: (Number.floatText f typedWords bits).toList)
    (hread : ∀ literal, readLiteral? (String.ofList [tag]) literal =
      some ((Number.readFloat f literal).map make))
    (hmake : make (Number.quietBits f bits) = v.quieted) :
    Tagged v tag (Number.floatText f typedWords bits) := by
  refine .of_numberChars htag hitem (fun c => Number.numberChar_floatText hf hbits) ?_
  rw [hread, typedWords, Number.readFloat_floatText hf hbits, ← hmake]
  rfl

theorem tagged_float (bits : UInt32) :
    Tagged (.float bits) 'F' (Number.floatText .single typedWords bits.toNat) := by
  refine .of_floatText Number.Format.usual_single (fun n => .float (UInt32.ofNat n)) bits.toNat_lt
    (by decide) (String.toList_append ..) (fun _ => rfl) ?_
  rw [Number.quietBits, Value.quieted]
  split
  · rfl
  · rw [UInt32.ofNat_toNat]

theorem tagged_double (bits : UInt64) :
    Tagged (.double bits) 'D' (Number.floatText .double typedWords bits.toNat) := by
  refine .of_floatText Number.Format.usual_double (fun n => .double (UInt64.ofNat n)) bits.toNat_lt
    (by decide) (String.toList_append ..) (fun _ => rfl) ?_
  rw [Number.quietBits, Value.quieted]
  split
  · rfl
  · rw [UInt64.ofNat_toNat]

/-- Of a text all is escaped but the tag. -/
theorem tagged_text (s : String) : Tagged (.text s) 'T' s where
  tag_ne := by decide
  writes := by
    have htag : ItemList.Writes ['T', ':'] ['T', ':'] := .of_escape rfl
    have hitem : (typedItem (.text s)).toList = ['T', ':'] ++ ItemList.escape s.toList := by
      rw [typedItem, String.toList_append]
      exact congrArg (['T', ':'] ++ ·) String.toList_ofList
    rw [hitem]
    exact htag.append (ItemList.writes_escape s.toList)
  read := rfl

/-- Every value but the null value is written with a tag. -/
theorem exists_tagged {v : Value} (h : v ≠ .null) : ∃ tag literal, Tagged v tag literal := by
  cases v with
  | null => exact absurd rfl h
  | boolean b => exact ⟨_, _, tagged_boolean b⟩
  | byte n => exact ⟨_, _, tagged_byte n⟩
  | char unit => exact ⟨_, _, tagged_char unit⟩
  | short n => exact ⟨_, _, tagged_short n⟩
  | int n => exact ⟨_, _, tagged_int n⟩
  | long n => exact ⟨_, _, tagged_long n⟩
  | float bits => exact ⟨_, _, tagged_float bits⟩
  | double bits => exact ⟨_, _, tagged_double bits⟩
  | text s => exact ⟨_, _, tagged_text s⟩

/-! ## Observations -/

/-- Every value takes an item, and is read from it. -/
theorem exists_item (v : Value) : ∃ item, ItemList.Writes (typedItem v).toList item ∧
    readTypedItem (String.ofList item) = .ok v.quieted := by
  by_cases hv : v = .null
  · subst hv
    exact ⟨['N'], .of_escape rfl, rfl⟩
  · obtain ⟨tag, literal, h⟩ := exists_tagged hv
    exact ⟨_, h.writes, h.readTypedItem⟩

theorem mapM_readTypedItem {item : Value → List Char}
    (h : ∀ v, readTypedItem (String.ofList (item v)) = .ok v.quieted) (o : Observation) :
    ((o.map item).map String.ofList).mapM readTypedItem = .ok (o.map Value.quieted) := by
  induction o with
  | nil => rfl
  | cons v o ih =>
    rw [List.map_cons, List.map_cons, List.mapM_cons, h, ih]
    rfl

theorem toList_typed_write (o : Observation) :
    (typed.write o).toList = ItemList.bracket (o.map fun v => (typedItem v).toList) :=
  String.toList_ofList

theorem typed_read_write (o : Observation) :
    typed.read (typed.write o) = .ok (o.map Value.quieted) := by
  choose item hwrites hread using exists_item
  have hitems : readItems (typed.write o) = .ok ((o.map item).map String.ofList) := by
    rw [readItems, toList_typed_write, ItemList.split_bracket_map fun v _ => hwrites v]
  show readTyped (typed.write o) = _
  rw [readTyped, hitems]
  show Except.mapError _ (List.mapM readTypedItem _) = _
  rw [mapM_readTypedItem hread]
  rfl

theorem typed_legible : typed.Legible (List.map Value.quieted) where
  read_write := typed_read_write
  inLine o := by
    choose item hwrites hread using exists_item
    rw [toList_typed_write]
    exact ItemList.inLine_bracket_map fun v _ => hwrites v

example : typed.read (typed.write [.float 0x3DCCCCCD, .null, .text "", .double 0x1]) =
    .ok [.float 0x3DCCCCCD, .null, .text "", .double 0x1] := by
  decide +kernel

theorem typedItem_quieted (v : Value) : typedItem v.quieted = typedItem v := by
  cases v with
  | float bits =>
    rw [Value.quieted]
    split
    · next h => rw [typedItem, typedItem, Number.floatText_of_isNan _ h]; rfl
    · rfl
  | double bits =>
    rw [Value.quieted]
    split
    · next h => rw [typedItem, typedItem, Number.floatText_of_isNan _ h]; rfl
    · rfl
  | _ => rfl

theorem typed_write_quieted (o : Observation) :
    typed.write (o.map Value.quieted) = typed.write o := by
  show writeItems _ _ = writeItems _ o
  rw [writeItems, writeItems, List.map_map]
  congr 3
  funext v
  rw [Function.comp_apply, typedItem_quieted]

/-- **What the typed codec keeps.** Every observation is read back with the usual bits in place of
those that stand for no number. So it is read back as it was exactly if it has no others of them,
and another observation is written alike exactly if the two differ in nothing else. -/
theorem typed_keeps_numbers (o : Observation) :
    typed.read (typed.write o) = .ok (o.map Value.quieted) ∧
      (typed.read (typed.write o) = .ok o ↔ ∀ v ∈ o, v.quieted = v) ∧
      ∀ o', typed.write o' = typed.write o ↔ o'.map Value.quieted = o.map Value.quieted := by
  refine ⟨typed_read_write o, ?_, fun o' => ⟨fun h => ?_, fun h => ?_⟩⟩
  · have hmap : o.map Value.quieted = o.map id ↔ ∀ v ∈ o, v.quieted = v := List.map_inj_left
    rw [typed_read_write, Except.ok.injEq, ← hmap, List.map_id]
  · -- one line is read in one way
    have hread := typed_read_write o'
    rw [h, typed_read_write o] at hread
    exact (Except.ok.inj hread).symm
  · rw [← typed_write_quieted o', h, typed_write_quieted]

/-- Two values that the store keeps apart are written alike, and one of them is not read back. -/
theorem typed_forgets_payload :
    Value.double 0x7FF8000000000001 ≠ Value.double 0x7FF8000000000000 ∧
      typed.write [.double 0x7FF8000000000001] = typed.write [.double 0x7FF8000000000000] ∧
      typed.read (typed.write [.double 0x7FF8000000000001]) ≠ .ok [.double 0x7FF8000000000001] := by
  refine ⟨?_, ?_, ?_⟩ <;> decide +kernel

end Codec

end ValueCoverage
