import ValueCoverage.Proofs.ClassFile.Takes

/-!
# Constant pools as they are written

A pool can be written if each `long` and `double` has its second, empty slot and no other slot but
the first is empty, its texts fit their lengths, and it fits its count. Just such pools are read.
-/

namespace ValueCoverage

/-- A text fits its length. -/
def Constant.Fits : Constant → Prop
  | .utf8 bytes => bytes.length ≤ ClassReader.greatestCount
  | _ => True

instance : (c : Constant) → Decidable c.Fits
  | .utf8 bytes => inferInstanceAs (Decidable (bytes.length ≤ ClassReader.greatestCount))
  | .integer _ | .float _ | .long _ | .double _ | .classRef _ | .string _ | .fieldref _ _
  | .methodref _ _ | .interfaceMethodref _ _ | .nameAndType _ _ | .methodHandle _ _
  | .methodType _ | .dynamic _ _ | .invokeDynamic _ _ | .moduleRef _ | .packageRef _ =>
    isTrue trivial

namespace ConstantPool

/-- An empty slot stands behind each wide constant, and nowhere else. -/
inductive Paired : List (Option Constant) → Prop where
  | nil : Paired []
  | narrow {c : Constant} {slots : List (Option Constant)} (hc : c.isWide = false)
      (h : Paired slots) : Paired (some c :: slots)
  | wide {c : Constant} {slots : List (Option Constant)} (hc : c.isWide = true)
      (h : Paired slots) : Paired (some c :: none :: slots)

theorem Paired.append {slots more : List (Option Constant)} (h : Paired slots) (h' : Paired more) :
    Paired (slots ++ more) := by
  induction h with
  | nil => exact h'
  | narrow hc _ ih => exact .narrow hc ih
  | wide hc _ ih => exact .wide hc ih

/-- The first slot is empty, and the slots behind it are paired. -/
def Laid (p : ConstantPool) : Prop :=
  ∃ slots, p.slots.toList = none :: slots ∧ Paired slots

/-- The pool can be written. -/
structure Fits (p : ConstantPool) : Prop where
  laid : p.Laid
  size_le : p.slots.size ≤ ClassReader.greatestCount
  constants : ∀ c, some c ∈ p.slots.toList → c.Fits

end ConstantPool

namespace ClassReader

variable {limit : Nat}

/-! ## Constants -/

/-- The halves of an eight-byte word make it up. -/
theorem ofNat_halves (w : UInt64) :
    UInt64.ofNat ((UInt32.ofNat (w.toNat / 0x100000000)).toNat * 0x100000000 +
      (UInt32.ofNat w.toNat).toNat) = w := by
  have h := w.toNat_lt
  apply UInt64.toNat_inj.1
  simp only [UInt64.toNat_ofNat', UInt32.toNat_ofNat']
  omega

theorem halves_ofNat (high low : UInt32) :
    Bytes.put64 (UInt64.ofNat (high.toNat * 0x100000000 + low.toNat)) =
      Bytes.put32 high ++ Bytes.put32 low := by
  have hhigh := high.toNat_lt
  have hlow := low.toNat_lt
  have hw : (UInt64.ofNat (high.toNat * 0x100000000 + low.toNat)).toNat =
      high.toNat * 0x100000000 + low.toNat := by
    rw [UInt64.toNat_ofNat']
    omega
  have hdiv : UInt32.ofNat ((high.toNat * 0x100000000 + low.toNat) / 0x100000000) = high := by
    apply UInt32.toNat_inj.1
    rw [UInt32.toNat_ofNat']
    omega
  have hmod : UInt32.ofNat (high.toNat * 0x100000000 + low.toNat) = low := by
    apply UInt32.toNat_inj.1
    rw [UInt32.toNat_ofNat']
    omega
  rw [Bytes.put64, hw, hdiv, hmod]

theorem takes_oneIndex (f : UInt16 → Constant) (a : UInt16) :
    Takes limit (oneIndex f) (Bytes.put16 a) (f a) :=
  (takes_u2 a).map fun _ => rfl

theorem takes_twoIndices (f : UInt16 → UInt16 → Constant) (a b : UInt16) :
    Takes limit (twoIndices f) (Bytes.put16 a ++ Bytes.put16 b) (f a b) :=
  (takes_u2 a).bind ((takes_u2 b).map fun _ => rfl)

theorem takes_wide (f : UInt64 → Constant) (w : UInt64) :
    Takes limit (wide f) (Bytes.put64 w) (f w) :=
  (takes_u4 _).bind ((takes_u4 _).map fun rest =>
    congrArg (fun w => Except.ok (f w, rest)) (ofNat_halves w))

theorem oneIndex_eq_ok {f : UInt16 → Constant} {bytes rest : Bytes} {c : Constant}
    (h : oneIndex f bytes = .ok (c, rest)) : ∃ a, c = f a ∧ bytes = Bytes.put16 a ++ rest := by
  obtain ⟨⟨a, more⟩, ha, h⟩ := bind_eq_ok.1 h
  cases h
  exact ⟨a, rfl, u2_eq_ok.1 ha⟩

theorem twoIndices_eq_ok {f : UInt16 → UInt16 → Constant} {bytes rest : Bytes} {c : Constant}
    (h : twoIndices f bytes = .ok (c, rest)) :
    ∃ a b, c = f a b ∧ bytes = Bytes.put16 a ++ Bytes.put16 b ++ rest := by
  obtain ⟨⟨a, more⟩, ha, h⟩ := bind_eq_ok.1 h
  obtain ⟨⟨b, more'⟩, hb, h⟩ := bind_eq_ok.1 h
  cases h
  exact ⟨a, b, rfl, by rw [u2_eq_ok.1 ha, u2_eq_ok.1 hb, List.append_assoc]⟩

theorem wide_eq_ok {f : UInt64 → Constant} {bytes rest : Bytes} {c : Constant}
    (h : wide f bytes = .ok (c, rest)) : ∃ w, c = f w ∧ bytes = Bytes.put64 w ++ rest := by
  obtain ⟨⟨high, more⟩, hhigh, h⟩ := bind_eq_ok.1 h
  obtain ⟨⟨low, more'⟩, hlow, h⟩ := bind_eq_ok.1 h
  cases h
  exact ⟨_, rfl, by rw [halves_ofNat, u4_eq_ok.1 hhigh, u4_eq_ok.1 hlow, List.append_assoc]⟩

theorem takes_constantBody {c : Constant} (h : c.Fits) :
    Takes limit (constantBody c.tag) c.body c := by
  cases c with
  | utf8 bytes => exact (takes_u2 _).bind ((takes_take (toNat_ofNat_of_le h).symm).map fun _ => rfl)
  | integer n => exact (takes_u4 _).map fun rest => by simp
  | float bits => exact (takes_u4 _).map fun _ => rfl
  | long n => exact takes_wide (fun w => .long w.toInt64) n.toUInt64
  | double bits => exact takes_wide .double bits
  | classRef a => exact takes_oneIndex .classRef a
  | string a => exact takes_oneIndex .string a
  | fieldref a b => exact takes_twoIndices .fieldref a b
  | methodref a b => exact takes_twoIndices .methodref a b
  | interfaceMethodref a b => exact takes_twoIndices .interfaceMethodref a b
  | nameAndType a b => exact takes_twoIndices .nameAndType a b
  | methodHandle kind a => exact (takes_u1 kind).bind ((takes_u2 a).map fun _ => rfl)
  | methodType a => exact takes_oneIndex .methodType a
  | dynamic a b => exact takes_twoIndices .dynamic a b
  | invokeDynamic a b => exact takes_twoIndices .invokeDynamic a b
  | moduleRef a => exact takes_oneIndex .moduleRef a
  | packageRef a => exact takes_oneIndex .packageRef a

theorem takes_constant {c : Constant} (h : c.Fits) : Takes limit constant c.bytes c :=
  (takes_u1 c.tag).bind (takes_constantBody h)

/-- Each tag is that of one kind of constant. -/
theorem constantBody_eq_ok {tag : UInt8} {bytes rest : Bytes} {c : Constant}
    (h : constantBody tag bytes = .ok (c, rest)) :
    c.tag = tag ∧ c.Fits ∧ bytes = c.body ++ rest := by
  have htag {n : UInt8} (hn : tag.toNat = n.toNat) : n = tag := UInt8.toNat_inj.1 hn.symm
  unfold constantBody at h
  split at h
  · next hn =>
    obtain ⟨⟨length, more⟩, hlength, h⟩ := bind_eq_ok.1 h
    obtain ⟨⟨text, more'⟩, htext, h⟩ := bind_eq_ok.1 h
    cases h
    obtain ⟨rfl, hlen⟩ := take_eq_ok.1 htext
    refine ⟨htag hn, ?_, ?_⟩
    · show text.length ≤ greatestCount
      have := length.toNat_lt
      unfold greatestCount
      omega
    · rw [u2_eq_ok.1 hlength, Constant.body, putCount, hlen, UInt16.ofNat_toNat, List.append_assoc]
  · next hn =>
    obtain ⟨⟨w, more⟩, hw, h⟩ := bind_eq_ok.1 h
    cases h
    exact ⟨htag hn, trivial, by rw [u4_eq_ok.1 hw, Constant.body, UInt32.toUInt32_toInt32]⟩
  · next hn =>
    obtain ⟨⟨w, more⟩, hw, h⟩ := bind_eq_ok.1 h
    cases h
    exact ⟨htag hn, trivial, u4_eq_ok.1 hw⟩
  · next hn =>
    obtain ⟨w, rfl, rfl⟩ := wide_eq_ok h
    exact ⟨htag hn, trivial, by rw [Constant.body, UInt64.toUInt64_toInt64]⟩
  · next hn =>
    obtain ⟨w, rfl, rfl⟩ := wide_eq_ok h
    exact ⟨htag hn, trivial, rfl⟩
  · next hn =>
    obtain ⟨a, rfl, rfl⟩ := oneIndex_eq_ok h
    exact ⟨htag hn, trivial, rfl⟩
  · next hn =>
    obtain ⟨a, rfl, rfl⟩ := oneIndex_eq_ok h
    exact ⟨htag hn, trivial, rfl⟩
  · next hn =>
    obtain ⟨a, b, rfl, rfl⟩ := twoIndices_eq_ok h
    exact ⟨htag hn, trivial, rfl⟩
  · next hn =>
    obtain ⟨a, b, rfl, rfl⟩ := twoIndices_eq_ok h
    exact ⟨htag hn, trivial, rfl⟩
  · next hn =>
    obtain ⟨a, b, rfl, rfl⟩ := twoIndices_eq_ok h
    exact ⟨htag hn, trivial, rfl⟩
  · next hn =>
    obtain ⟨a, b, rfl, rfl⟩ := twoIndices_eq_ok h
    exact ⟨htag hn, trivial, rfl⟩
  · next hn =>
    obtain ⟨⟨kind, more⟩, hkind, h⟩ := bind_eq_ok.1 h
    obtain ⟨⟨a, more'⟩, ha, h⟩ := bind_eq_ok.1 h
    cases h
    exact ⟨htag hn, trivial, by rw [u1_eq_ok.1 hkind, u2_eq_ok.1 ha]; rfl⟩
  · next hn =>
    obtain ⟨a, rfl, rfl⟩ := oneIndex_eq_ok h
    exact ⟨htag hn, trivial, rfl⟩
  · next hn =>
    obtain ⟨a, b, rfl, rfl⟩ := twoIndices_eq_ok h
    exact ⟨htag hn, trivial, rfl⟩
  · next hn =>
    obtain ⟨a, b, rfl, rfl⟩ := twoIndices_eq_ok h
    exact ⟨htag hn, trivial, rfl⟩
  · next hn =>
    obtain ⟨a, rfl, rfl⟩ := oneIndex_eq_ok h
    exact ⟨htag hn, trivial, rfl⟩
  · next hn =>
    obtain ⟨a, rfl, rfl⟩ := oneIndex_eq_ok h
    exact ⟨htag hn, trivial, rfl⟩
  · cases h

theorem finds_constant : Finds constant Constant.bytes Constant.Fits := by
  intro bytes c rest h
  obtain ⟨⟨tag, more⟩, htag, h⟩ := bind_eq_ok.1 h
  obtain ⟨rfl, hfits, rfl⟩ := constantBody_eq_ok h
  exact ⟨hfits, u1_eq_ok.1 htag⟩

/-! ## Pools -/

/-- The constants of slots, one after the other. -/
def slotBytes (slots : List (Option Constant)) : Bytes :=
  (slots.filterMap id).flatMap Constant.bytes

theorem slotBytes_some (c : Constant) (slots : List (Option Constant)) :
    slotBytes (some c :: slots) = c.bytes ++ slotBytes slots := rfl

theorem slotBytes_none (slots : List (Option Constant)) :
    slotBytes (none :: slots) = slotBytes slots := rfl

/-- One round of the loop. -/
theorem constants_succ {count bound : Nat} {slots : Array (Option Constant)}
    (h : slots.size < count) (bytes : Bytes) :
    constants count (bound + 1) slots bytes = constant bytes >>= fun x =>
      constants count bound
        (if x.1.isWide then (slots.push (some x.1)).push none else slots.push (some x.1)) x.2 := by
  rw [constants, if_pos h]
  cases constant bytes <;> rfl

theorem push_append_toArray (slots : Array (Option Constant)) (c : Option Constant)
    (more : List (Option Constant)) :
    slots.push c ++ more.toArray = slots ++ (c :: more).toArray := by
  apply Array.toList_inj.1
  simp

/-- The loop fills the slots that are left. Each constant fills at least one of them, so the bound
is never met. -/
theorem takes_constants {count bound : Nat} {slots : Array (Option Constant)}
    {more : List (Option Constant)} (h : ConstantPool.Paired more)
    (hfits : ∀ c, some c ∈ more → c.Fits) (hsize : slots.size + more.length = count)
    (hbound : more.length ≤ bound) :
    Takes limit (constants count bound slots) (slotBytes more) (slots ++ more.toArray) := by
  induction h generalizing slots bound with
  | nil =>
    have hfull : ∀ bytes, constants count bound slots bytes = .ok (slots, bytes) := by
      intro bytes
      cases bound with
      | zero => rfl
      | succ bound => rw [constants, if_neg (by simp at hsize; omega)]
    rw [funext hfull, Array.append_empty]
    exact .pure slots
  | @narrow c more hc h ih =>
    obtain ⟨bound, rfl⟩ : ∃ n, bound = n + 1 := ⟨bound - 1, by simp at hbound; omega⟩
    simp only [List.length_cons] at hsize hbound
    have hrest : Takes limit (constants count bound (slots.push (some c))) (slotBytes more) _ :=
      ih (fun d hd => hfits d (by simp [hd])) (by rw [Array.size_push]; omega) (by omega)
    rw [push_append_toArray] at hrest
    rw [funext (constants_succ (by omega)), slotBytes_some]
    refine (takes_constant (hfits c List.mem_cons_self)).bind ?_
    simpa only [hc, Bool.false_eq_true, if_false] using hrest
  | @wide c more hc h ih =>
    obtain ⟨bound, rfl⟩ : ∃ n, bound = n + 1 := ⟨bound - 1, by simp at hbound; omega⟩
    simp only [List.length_cons] at hsize hbound
    have hrest : Takes limit (constants count bound ((slots.push (some c)).push none))
        (slotBytes more) _ :=
      ih (fun d hd => hfits d (by simp [hd])) (by simp only [Array.size_push]; omega) (by omega)
    rw [push_append_toArray, push_append_toArray] at hrest
    rw [funext (constants_succ (by omega)), slotBytes_some, slotBytes_none]
    refine (takes_constant (hfits c List.mem_cons_self)).bind ?_
    simpa only [hc, if_true] using hrest

/-- What the loop has filled. -/
theorem constants_eq_ok {count bound : Nat} {slots found : Array (Option Constant)}
    {bytes rest : Bytes} (h : constants count bound slots bytes = .ok (found, rest)) :
    ∃ more, found.toList = slots.toList ++ more ∧ ConstantPool.Paired more ∧
      (∀ c, some c ∈ more → c.Fits) ∧ bytes = slotBytes more ++ rest := by
  induction bound generalizing slots bytes with
  | zero =>
    cases h
    exact ⟨[], by simp, .nil, by simp, rfl⟩
  | succ bound ih =>
    by_cases hsize : slots.size < count
    · rw [constants_succ hsize] at h
      obtain ⟨⟨c, left⟩, hc, h⟩ := bind_eq_ok.1 h
      obtain ⟨more, hfound, hpaired, hfits, rfl⟩ := ih h
      obtain ⟨hcfits, rfl⟩ := finds_constant hc
      cases hwide : c.isWide with
      | false =>
        refine ⟨some c :: more, ?_, .narrow hwide hpaired, ?_, ?_⟩
        · simpa [hwide] using hfound
        · simpa [hcfits] using hfits
        · rw [slotBytes_some, List.append_assoc]
      | true =>
        refine ⟨some c :: none :: more, ?_, .wide hwide hpaired, ?_, ?_⟩
        · simpa [hwide] using hfound
        · simpa [hcfits] using hfits
        · rw [slotBytes_some, slotBytes_none, List.append_assoc]
    · rw [constants, if_neg hsize] at h
      cases h
      exact ⟨[], by simp, .nil, by simp, rfl⟩

theorem takes_pool {p : ConstantPool} (h : p.Fits) : Takes limit pool p.bytes p := by
  obtain ⟨slots, hslots, hpaired⟩ := h.laid
  have hcount : p.count.toNat = p.slots.size := toNat_ofNat_of_le h.size_le
  have hlength : p.slots.size = slots.length + 1 := by
    rw [← Array.length_toList, hslots, List.length_cons]
  have hall : #[none] ++ slots.toArray = p.slots := by
    apply Array.toList_inj.1
    simp [hslots]
  have hbytes : p.bytes = Bytes.put16 p.count ++ slotBytes slots := by
    rw [ConstantPool.bytes, hslots]
    rfl
  have hloop : Takes limit (constants p.count.toNat p.count.toNat #[none]) (slotBytes slots) _ :=
    takes_constants hpaired (fun c hc => h.constants c (by simp [hslots, hc]))
      (by rw [hcount, hlength, Nat.add_comm]; rfl) (by omega)
  rw [hall] at hloop
  rw [hbytes]
  refine (takes_u2 _).bind (hloop.map fun rest => ?_)
  simp only [hcount, if_true]

theorem finds_pool : Finds pool ConstantPool.bytes ConstantPool.Fits := by
  intro bytes p rest h
  obtain ⟨⟨count, left⟩, hcount, h⟩ := bind_eq_ok.1 h
  obtain ⟨⟨slots, left'⟩, hslots, h⟩ := bind_eq_ok.1 h
  simp only at h
  split at h
  · next hsize =>
    cases h
    obtain ⟨more, hfound, hpaired, hfits, rfl⟩ := constants_eq_ok hslots
    have hfound : slots.toList = none :: more := hfound
    refine ⟨⟨⟨more, hfound, hpaired⟩, ?_, ?_⟩, ?_⟩
    · have := count.toNat_lt
      show slots.size ≤ greatestCount
      unfold greatestCount
      omega
    · intro c hc
      rw [hfound] at hc
      exact hfits c (by simpa using hc)
    · rw [u2_eq_ok.1 hcount, ConstantPool.bytes, ConstantPool.count, hsize, UInt16.ofNat_toNat,
        hfound, List.append_assoc]
      rfl
  · cases h

end ClassReader

end ValueCoverage
