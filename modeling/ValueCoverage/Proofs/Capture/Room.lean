import ValueCoverage.Proofs.Capture.Rewriting
import ValueCoverage.Proofs.ClassFile.Delta
import ValueCoverage.Proofs.ClassFile.RoundTrip

/-!
# The room that moved code takes

Moving the places in code keeps every table as long as it is, and only the first frame of a table of
frames may take another form, with two bytes more. So code that has been moved can be written if it
could be before and its body still fits its length.
-/

namespace ValueCoverage

theorem length_putTable {α : Type} (put : α → Bytes) (xs : List α) :
    (putTable put xs).length = 2 + (xs.flatMap put).length := by
  simp [putTable, putCount, Bytes.put16]
  omega

/-- Each item for one as long. -/
theorem length_flatMap_map {α : Type} {put : α → Bytes} {f : α → α}
    (h : ∀ a, (put (f a)).length = (put a).length) (xs : List α) :
    ((xs.map f).flatMap put).length = (xs.flatMap put).length := by
  induction xs with
  | nil => rfl
  | cons a xs ih => simp only [List.map_cons, List.flatMap_cons, List.length_append, h, ih]

theorem length_le_length_flatMap {α : Type} {put : α → Bytes} {xs : List α} {a : α} (h : a ∈ xs) :
    (put a).length ≤ (xs.flatMap put).length := by
  obtain ⟨before, after, rfl⟩ := List.append_of_mem h
  simp only [List.flatMap_append, List.flatMap_cons, List.length_append]
  omega

/-! ## Frames -/

theorem VerificationType.length_bytes_shift (amount : UInt16) (t : VerificationType) :
    (t.shift amount).bytes.length = t.bytes.length := by
  cases t <;> rfl

namespace Frame

variable {frame : Frame} {frames : List Frame}

theorem Fits.mapTypes (h : frame.Fits) (f : VerificationType → VerificationType) :
    (frame.mapTypes f).Fits := by
  cases frame with
  | append | full => simpa only [Frame.mapTypes, Fits, List.length_map] using h
  | same | sameItem | sameItemExtended | chop | sameExtended => exact h

theorem length_bytes_mapTypes {f : VerificationType → VerificationType}
    (h : ∀ t, (f t).bytes.length = t.bytes.length) (frame : Frame) :
    (frame.mapTypes f).bytes.length = frame.bytes.length := by
  cases frame <;> simp only [Frame.mapTypes, bytes, List.length_cons, List.length_append,
    length_putTable, length_flatMap_map h, h]

theorem length_bytes_withDelta_le (d : UInt16) (frame : Frame) :
    (frame.withDelta d).bytes.length ≤ frame.bytes.length + 2 := by
  cases frame with
  | same | sameExtended | sameItem =>
    simp only [Frame.withDelta]
    split <;> simp [bytes, Bytes.put16]
  | sameItemExtended | chop | append | full => simp [Frame.withDelta, bytes, Bytes.put16]

theorem length_shiftAll (amount : UInt16) (frames : List Frame) :
    (shiftAll amount frames).length = frames.length := by
  cases frames <;> simp [shiftAll, shiftFirst]

theorem fits_shiftAll {amount : UInt16} (h : ∀ f ∈ frames, f.Fits) :
    ∀ f ∈ shiftAll amount frames, f.Fits := by
  cases frames with
  | nil => simp [shiftAll, shiftFirst]
  | cons first rest =>
    simp only [List.mem_cons, forall_eq_or_imp] at h
    simp only [shiftAll, shiftFirst, List.map_cons, List.mem_cons, forall_eq_or_imp, List.mem_map,
      forall_exists_index, and_imp, forall_apply_eq_imp_iff₂]
    exact ⟨fits_withDelta (h.1.mapTypes _).change _, fun f hf => (h.2 f hf).mapTypes _⟩

theorem length_shiftAll_bytes_le (amount : UInt16) (frames : List Frame) :
    ((shiftAll amount frames).flatMap bytes).length ≤ (frames.flatMap bytes).length + 2 := by
  have htypes := length_bytes_mapTypes (VerificationType.length_bytes_shift amount)
  cases frames with
  | nil => exact Nat.zero_le _
  | cons first rest =>
    simp only [shiftAll, shiftFirst, List.map_cons, List.flatMap_cons, List.length_append,
      length_flatMap_map htypes]
    have hfirst := length_bytes_withDelta_le
      ((first.mapTypes (VerificationType.shift amount)).delta + amount)
      (first.mapTypes (VerificationType.shift amount))
    rw [htypes] at hfirst
    omega

end Frame

/-! ## Attributes -/

namespace Attribute

variable {pool : ConstantPool} {a : Attribute} {attributes : List Attribute}

theorem length_body_shift_le (amount : UInt16) (a : Attribute) :
    (a.shift amount).body.length ≤ a.body.length + 2 := by
  cases a with
  | lineNumberTable name entries =>
    simp only [shift, body, length_putTable,
      length_flatMap_map fun e : LineEntry => show (e.shift amount).bytes.length = _ from rfl]
    omega
  | localVariableTable name entries | localVariableTypeTable name entries =>
    have hentry (e : LocalEntry) : (e.shift amount).bytes.length = e.bytes.length := rfl
    simp only [shift, body, length_putTable, length_flatMap_map hentry]
    omega
  | stackMapTable name frames =>
    have hframes := Frame.length_shiftAll_bytes_le amount frames
    simp only [shift, body, length_putTable]
    omega
  | code | exceptions | raw => exact Nat.le_add_right _ _

/-- Places may move in an attribute that can be written, as long as its body fits its length. -/
theorem Fits.shift (h : a.Fits pool) {amount : UInt16}
    (hsize : (a.shift amount).body.length ≤ greatestLength) : (a.shift amount).Fits pool := by
  cases h with
  | code named size handlers_le attributes_le inner =>
    exact .code named size handlers_le attributes_le inner
  | stackMapTable named size frames_le all =>
    exact .stackMapTable named hsize (by rwa [Frame.length_shiftAll]) (Frame.fits_shiftAll all)
  | exceptions named size classes_le => exact .exceptions named size classes_le
  | lineNumberTable named size entries_le =>
    exact .lineNumberTable named hsize (by rwa [List.length_map])
  | localVariableTable named size entries_le =>
    exact .localVariableTable named hsize (by rwa [List.length_map])
  | localVariableTypeTable named size entries_le =>
    exact .localVariableTypeTable named hsize (by rwa [List.length_map])
  | raw named size => exact .raw named size

theorem length_bytes (a : Attribute) : a.bytes.length = a.body.length + 6 := by
  rw [bytes_eq, putAttribute]
  simp [Bytes.put16, Bytes.put32]

theorem length_tableBytes (attributes : List Attribute) :
    (tableBytes attributes).length = 2 + (attributes.flatMap bytes).length := by
  rw [tableBytes_eq, length_putTable]

/-- What is inside of something is shorter. -/
theorem length_body_lt_of_mem (h : a ∈ attributes) :
    a.body.length < (attributes.flatMap bytes).length := by
  have hle : a.bytes.length ≤ (attributes.flatMap bytes).length := length_le_length_flatMap h
  rw [length_bytes] at hle
  omega

theorem length_flatMap_shift_le (amount : UInt16) (attributes : List Attribute) :
    ((attributes.map (·.shift amount)).flatMap bytes).length ≤
      (attributes.flatMap bytes).length + 2 * attributes.length := by
  induction attributes with
  | nil => exact Nat.le_refl _
  | cons a rest ih =>
    have hone := length_body_shift_le amount a
    simp only [List.map_cons, List.flatMap_cons, List.length_append, length_bytes, List.length_cons]
    omega

end Attribute

/-! ## Code -/

namespace Code

variable {pool : ConstantPool}

theorem length_body (c : Code) : c.toAttribute.body.length =
    12 + c.bytes.length + (c.handlers.flatMap ExceptionRange.bytes).length +
      (c.attributes.flatMap Attribute.bytes).length := by
  simp only [toAttribute, Attribute.body, List.length_append, length_putTable,
    Attribute.length_tableBytes, Bytes.put16, Bytes.put32, List.length_cons, List.length_nil]
  omega

/-- Besides what is put in front, each attribute may take two bytes more. -/
theorem length_body_prepend_le (front : Bytes) (depth : UInt16) (c : Code) :
    (c.prepend front depth).toAttribute.body.length ≤
      c.toAttribute.body.length + front.length + 2 * c.attributes.length := by
  have hhandlers : ∀ e : ExceptionRange,
      (e.shift (UInt16.ofNat front.length)).bytes.length = e.bytes.length := fun _ => rfl
  have hattributes :=
    Attribute.length_flatMap_shift_le (UInt16.ofNat front.length) c.attributes
  simp only [length_body, prepend, shiftTables, List.length_append, length_flatMap_map hhandlers]
  omega

/-- Code may be put in front of code that can be written, as long as the body fits its length. -/
theorem fits_prepend {c : Code} (h : c.toAttribute.Fits pool) {front : Bytes} {depth : UInt16}
    (hsize : (c.prepend front depth).toAttribute.body.length ≤ Attribute.greatestLength) :
    (c.prepend front depth).toAttribute.Fits pool := by
  cases h with
  | code named _ handlers_le attributes_le inner =>
    have hhandlers : (c.prepend front depth).handlers.length = c.handlers.length :=
      List.length_map _
    have hattributes : (c.prepend front depth).attributes.length = c.attributes.length :=
      List.length_map _
    refine .code named hsize (by rwa [hhandlers]) (by rwa [hattributes]) fun a ha => ?_
    -- what is inside of the code is shorter than the code
    have hle : a.body.length ≤ Attribute.greatestLength := by
      have hlt := Attribute.length_body_lt_of_mem ha
      rw [length_body] at hsize
      omega
    obtain ⟨old, hold, rfl⟩ := List.mem_map.1 ha
    exact (inner old hold).shift hle

end Code

/-! ## Members -/

theorem ClassMember.Fits.withCode {pool : ConstantPool} {m : ClassMember} {old new : Code}
    (h : m.Fits pool) (hcode : m.code? = some old) (hnew : new.toAttribute.Fits pool) :
    (m.withCode new).Fits pool := by
  obtain ⟨before, after, hattributes, -, hreplaced⟩ := ClassMember.replaceCode_split hcode new
  have hall := h.all
  have hlen := h.length_le
  rw [hattributes] at hall hlen
  simp only [ClassMember.withCode, ClassMember.Fits, hreplaced]
  refine ⟨by simpa using hlen, fun a ha => ?_⟩
  simp only [List.mem_append, List.mem_cons] at ha hall
  rcases ha with ha | rfl | ha
  · exact hall a (.inl ha)
  · exact hnew
  · exact hall a (.inr (.inr ha))

/-- No attribute of a method is longer than the class. -/
theorem ClassFile.length_body_le {c : ClassFile} {m : ClassMember} {a : Attribute}
    (hm : m ∈ c.methods) (ha : a ∈ m.attributes) : a.body.length ≤ c.bytes.length := by
  have hmethod : m.bytes.length ≤ (c.methods.flatMap ClassMember.bytes).length :=
    length_le_length_flatMap hm
  have hattribute := Attribute.length_body_lt_of_mem ha
  simp only [ClassMember.bytes, List.length_append, Attribute.length_tableBytes] at hmethod
  simp only [ClassFile.bytes, List.length_append, length_putTable]
  omega

end ValueCoverage
