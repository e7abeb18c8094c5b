import ValueCoverage.Proofs.ClassFile.Frame

/-!
# Attributes as they are written

An attribute says how long it is and must use up its bytes, and what kind it is follows from its
name alone. So an attribute can be written if its name names its kind, its lists fit their counts
and its body fits its length; and the attributes inside of code can be written, too. Just such
attributes are read, at every depth that the number of bytes allows.
-/

namespace ValueCoverage

namespace Attribute

/-! ## Bodies -/

/-- What stands in the attribute behind its name and its length. -/
def body : Attribute → Bytes
  | .code _ maxStack maxLocals text handlers attributes =>
    Bytes.put16 maxStack ++ (Bytes.put16 maxLocals ++ (Bytes.put32 (UInt32.ofNat text.length) ++
      (text ++ (putTable ExceptionRange.bytes handlers ++ tableBytes attributes))))
  | .stackMapTable _ frames => putTable Frame.bytes frames
  | .exceptions _ classes => putTable Bytes.put16 classes
  | .lineNumberTable _ entries => putTable LineEntry.bytes entries
  | .localVariableTable _ entries | .localVariableTypeTable _ entries =>
    putTable LocalEntry.bytes entries
  | .raw _ info => info

theorem bytes_eq (a : Attribute) : a.bytes = putAttribute a.name a.body := by
  cases a <;> simp [bytes, body, name, tableBytes]

theorem listBytes_eq (attributes : List Attribute) :
    listBytes attributes = attributes.flatMap bytes := by
  induction attributes with
  | nil => simp [listBytes]
  | cons a rest ih => rw [listBytes, ih, List.flatMap_cons]

theorem tableBytes_eq (attributes : List Attribute) :
    tableBytes attributes = putTable bytes attributes := by
  rw [tableBytes, listBytes_eq, putTable]

/-! ## Attributes that can be written -/

/-- The names of the attributes that have types of their own. -/
def titles : List String :=
  ["Code", "StackMapTable", "Exceptions", "LineNumberTable", "LocalVariableTable",
    "LocalVariableTypeTable"]

/-- The name of the attribute names its kind. -/
def Named (pool : ConstantPool) : Attribute → Prop
  | .code name _ _ _ _ _ => ClassReader.titleOf pool name = "Code"
  | .stackMapTable name _ => ClassReader.titleOf pool name = "StackMapTable"
  | .exceptions name _ => ClassReader.titleOf pool name = "Exceptions"
  | .lineNumberTable name _ => ClassReader.titleOf pool name = "LineNumberTable"
  | .localVariableTable name _ => ClassReader.titleOf pool name = "LocalVariableTable"
  | .localVariableTypeTable name _ => ClassReader.titleOf pool name = "LocalVariableTypeTable"
  | .raw name _ => ClassReader.titleOf pool name ∉ titles

instance (pool : ConstantPool) : (a : Attribute) → Decidable (a.Named pool)
  | .code name _ _ _ _ _ => inferInstanceAs (Decidable (ClassReader.titleOf pool name = _))
  | .stackMapTable name _ => inferInstanceAs (Decidable (ClassReader.titleOf pool name = _))
  | .exceptions name _ => inferInstanceAs (Decidable (ClassReader.titleOf pool name = _))
  | .lineNumberTable name _ => inferInstanceAs (Decidable (ClassReader.titleOf pool name = _))
  | .localVariableTable name _ => inferInstanceAs (Decidable (ClassReader.titleOf pool name = _))
  | .localVariableTypeTable name _ =>
    inferInstanceAs (Decidable (ClassReader.titleOf pool name = _))
  | .raw name _ => inferInstanceAs (Decidable (ClassReader.titleOf pool name ∉ titles))

/-- The greatest length that four bytes hold. -/
def greatestLength : Nat := 0xFFFFFFFF

/-- The attribute and all those inside of it can be written, and their names name their kinds. -/
inductive Fits (pool : ConstantPool) : Attribute → Prop where
  | code {name maxStack maxLocals : UInt16} {code : Bytes} {handlers : List ExceptionRange}
    {attributes : List Attribute}
    (named : (Attribute.code name maxStack maxLocals code handlers attributes).Named pool)
    (size : (Attribute.code name maxStack maxLocals code handlers attributes).body.length ≤
      greatestLength)
    (handlers_le : handlers.length ≤ ClassReader.greatestCount)
    (attributes_le : attributes.length ≤ ClassReader.greatestCount)
    (inner : ∀ a ∈ attributes, Fits pool a) :
    Fits pool (.code name maxStack maxLocals code handlers attributes)
  | stackMapTable {name : UInt16} {frames : List Frame}
    (named : (Attribute.stackMapTable name frames).Named pool)
    (size : (Attribute.stackMapTable name frames).body.length ≤ greatestLength)
    (frames_le : frames.length ≤ ClassReader.greatestCount) (all : ∀ f ∈ frames, f.Fits) :
    Fits pool (.stackMapTable name frames)
  | exceptions {name : UInt16} {classes : List UInt16}
    (named : (Attribute.exceptions name classes).Named pool)
    (size : (Attribute.exceptions name classes).body.length ≤ greatestLength)
    (classes_le : classes.length ≤ ClassReader.greatestCount) :
    Fits pool (.exceptions name classes)
  | lineNumberTable {name : UInt16} {entries : List LineEntry}
    (named : (Attribute.lineNumberTable name entries).Named pool)
    (size : (Attribute.lineNumberTable name entries).body.length ≤ greatestLength)
    (entries_le : entries.length ≤ ClassReader.greatestCount) :
    Fits pool (.lineNumberTable name entries)
  | localVariableTable {name : UInt16} {entries : List LocalEntry}
    (named : (Attribute.localVariableTable name entries).Named pool)
    (size : (Attribute.localVariableTable name entries).body.length ≤ greatestLength)
    (entries_le : entries.length ≤ ClassReader.greatestCount) :
    Fits pool (.localVariableTable name entries)
  | localVariableTypeTable {name : UInt16} {entries : List LocalEntry}
    (named : (Attribute.localVariableTypeTable name entries).Named pool)
    (size : (Attribute.localVariableTypeTable name entries).body.length ≤ greatestLength)
    (entries_le : entries.length ≤ ClassReader.greatestCount) :
    Fits pool (.localVariableTypeTable name entries)
  | raw {name : UInt16} {info : Bytes} (named : (Attribute.raw name info).Named pool)
    (size : (Attribute.raw name info).body.length ≤ greatestLength) : Fits pool (.raw name info)

namespace Fits

variable {pool : ConstantPool} {a : Attribute}

theorem named (h : a.Fits pool) : a.Named pool := by
  cases h <;> assumption

theorem size (h : a.Fits pool) : a.body.length ≤ greatestLength := by
  cases h <;> assumption

end Fits

end Attribute

namespace ClassReader

open Attribute

variable {limit : Nat} {pool : ConstantPool}

/-! ## Entries of tables -/

theorem takes_exceptionRange (e : ExceptionRange) : Takes limit exceptionRange e.bytes e := by
  rw [ExceptionRange.bytes, List.append_assoc, List.append_assoc]
  exact (takes_u2 _).bind <| (takes_u2 _).bind <| (takes_u2 _).bind <| (takes_u2 _).map fun _ => rfl

theorem finds_exceptionRange : Finds exceptionRange ExceptionRange.bytes fun _ => True := by
  intro bytes e rest h
  obtain ⟨⟨start, b1⟩, h1, h⟩ := bind_eq_ok.1 h
  obtain ⟨⟨stop, b2⟩, h2, h⟩ := bind_eq_ok.1 h
  obtain ⟨⟨handler, b3⟩, h3, h⟩ := bind_eq_ok.1 h
  obtain ⟨⟨catchType, b4⟩, h4, h⟩ := bind_eq_ok.1 h
  cases h
  refine ⟨trivial, ?_⟩
  rw [u2_eq_ok.1 h1, u2_eq_ok.1 h2, u2_eq_ok.1 h3, u2_eq_ok.1 h4]
  simp [ExceptionRange.bytes]

theorem takes_lineEntry (e : LineEntry) : Takes limit lineEntry e.bytes e :=
  (takes_u2 _).bind <| (takes_u2 _).map fun _ => rfl

theorem finds_lineEntry : Finds lineEntry LineEntry.bytes fun _ => True := by
  intro bytes e rest h
  obtain ⟨⟨start, b1⟩, h1, h⟩ := bind_eq_ok.1 h
  obtain ⟨⟨line, b2⟩, h2, h⟩ := bind_eq_ok.1 h
  cases h
  refine ⟨trivial, ?_⟩
  rw [u2_eq_ok.1 h1, u2_eq_ok.1 h2]
  simp [LineEntry.bytes]

theorem takes_localEntry (e : LocalEntry) : Takes limit localEntry e.bytes e := by
  rw [LocalEntry.bytes, List.append_assoc, List.append_assoc, List.append_assoc]
  exact (takes_u2 _).bind <| (takes_u2 _).bind <| (takes_u2 _).bind <| (takes_u2 _).bind <|
    (takes_u2 _).map fun _ => rfl

theorem finds_localEntry : Finds localEntry LocalEntry.bytes fun _ => True := by
  intro bytes e rest h
  obtain ⟨⟨start, b1⟩, h1, h⟩ := bind_eq_ok.1 h
  obtain ⟨⟨length, b2⟩, h2, h⟩ := bind_eq_ok.1 h
  obtain ⟨⟨name, b3⟩, h3, h⟩ := bind_eq_ok.1 h
  obtain ⟨⟨type, b4⟩, h4, h⟩ := bind_eq_ok.1 h
  obtain ⟨⟨slot, b5⟩, h5, h⟩ := bind_eq_ok.1 h
  cases h
  refine ⟨trivial, ?_⟩
  rw [u2_eq_ok.1 h1, u2_eq_ok.1 h2, u2_eq_ok.1 h3, u2_eq_ok.1 h4, u2_eq_ok.1 h5]
  simp [LocalEntry.bytes]

/-! ## Bodies -/

section Bodies

variable {attributes : ClassReader (List Attribute)}

theorem toNat_ofNat_of_le_length {n : Nat} (h : n ≤ greatestLength) :
    (UInt32.ofNat n).toNat = n := by
  unfold greatestLength at h
  rw [UInt32.toNat_ofNat']
  omega

/-- The table of an attribute takes up all of its body. -/
theorem tableOf_putTable {α : Type} {f : List α → Attribute} {item : ClassReader α}
    {put : α → Bytes} {xs : List α} (hlen : xs.length ≤ greatestCount)
    (h : ∀ a ∈ xs, Takes (putTable put xs).length item (put a) a) :
    tableOf f item (putTable put xs) = .ok (f xs, []) := by
  have htakes : Takes (putTable put xs).length (tableOf f item) (putTable put xs) (f xs) :=
    (takes_table hlen h).map fun _ => rfl
  exact htakes.exact (Nat.le_refl _)

theorem tableOf_eq_ok {α : Type} {f : List α → Attribute} {item : ClassReader α} {put : α → Bytes}
    {fits : α → Prop} (hitem : Finds item put fits) {info rest : Bytes} {a : Attribute}
    (h : tableOf f item info = .ok (a, rest)) :
    ∃ xs, a = f xs ∧ Counted fits xs ∧ info = putTable put xs ++ rest := by
  obtain ⟨⟨xs, more⟩, hxs, h⟩ := bind_eq_ok.1 h
  cases h
  exact ⟨xs, rfl, finds_table hitem hxs⟩

/-- The name of an attribute is looked at before anything in it. -/
theorem content_titled {name : UInt16} {title : String} (h : titleOf pool name = title)
    (info : Bytes) :
    content attributes name (titleOf pool name) info = content attributes name title info := by
  rw [h]

theorem content_raw {name : UInt16} {title : String} (h : title ∉ titles) (info : Bytes) :
    content attributes name title info = .ok (.raw name info, []) := by
  simp only [titles, List.mem_cons, List.not_mem_nil, or_false, not_or] at h
  obtain ⟨h1, h2, h3, h4, h5, h6⟩ := h
  unfold content
  split
  · exact absurd rfl h1
  · exact absurd rfl h2
  · exact absurd rfl h3
  · exact absurd rfl h4
  · exact absurd rfl h5
  · exact absurd rfl h6
  · rfl

theorem takes_codeBody {name maxStack maxLocals : UInt16} {code : Bytes}
    {handlers : List ExceptionRange} {inner : List Attribute}
    (h : (Attribute.code name maxStack maxLocals code handlers inner).Fits pool)
    (hinner : Takes limit attributes (tableBytes inner) inner) :
    Takes limit (codeBody attributes name)
      (Attribute.code name maxStack maxLocals code handlers inner).body
      (.code name maxStack maxLocals code handlers inner) := by
  cases h with
  | code named size handlers_le inner_le all =>
    have hcode : (UInt32.ofNat code.length).toNat = code.length := by
      refine toNat_ofNat_of_le_length (Nat.le_trans ?_ size)
      simp only [body, List.length_append]
      omega
    have hhandlers : Takes limit (table exceptionRange) (putTable ExceptionRange.bytes handlers)
        handlers := takes_table handlers_le fun e _ => takes_exceptionRange e
    exact (takes_u2 maxStack).bind <| (takes_u2 maxLocals).bind <| (takes_u4 _).bind <|
      (takes_take hcode.symm).bind <| hhandlers.bind <| hinner.map fun _ => rfl

/-- A body is read as what it was written of. -/
theorem content_body {a : Attribute} (h : a.Fits pool)
    (hinner : ∀ inner, Counted (Attribute.Fits pool) inner →
      Takes limit attributes (tableBytes inner) inner) (hle : a.body.length ≤ limit) :
    content attributes a.name (titleOf pool a.name) a.body = .ok (a, []) := by
  have hfits := h
  cases h with
  | @code _ _ _ _ _ inner named _ _ inner_le all =>
    have htakes := takes_codeBody hfits (hinner inner ⟨inner_le, all⟩)
    exact (content_titled named _).trans (htakes.exact hle)
  | stackMapTable named _ frames_le all =>
    exact (content_titled named _).trans
      (tableOf_putTable frames_le fun f hf => takes_frame (all f hf))
  | exceptions named _ classes_le =>
    exact (content_titled named _).trans (tableOf_putTable classes_le fun w _ => takes_u2 w)
  | lineNumberTable named _ entries_le =>
    exact (content_titled named _).trans (tableOf_putTable entries_le fun e _ => takes_lineEntry e)
  | localVariableTable named _ entries_le =>
    exact (content_titled named _).trans (tableOf_putTable entries_le fun e _ => takes_localEntry e)
  | localVariableTypeTable named _ entries_le =>
    exact (content_titled named _).trans (tableOf_putTable entries_le fun e _ => takes_localEntry e)
  | raw named _ => exact content_raw named _

/-- What the reader of code has gone through. -/
theorem codeBody_eq_ok {name : UInt16} {info rest : Bytes} {a : Attribute}
    (hinner : Finds attributes tableBytes (Counted (Attribute.Fits pool)))
    (h : codeBody attributes name info = .ok (a, rest)) :
    ∃ maxStack maxLocals code handlers inner,
      a = .code name maxStack maxLocals code handlers inner ∧
      Counted (fun _ => True) handlers ∧ Counted (Attribute.Fits pool) inner ∧
      info = a.body ++ rest := by
  obtain ⟨⟨maxStack, b1⟩, h1, h⟩ := bind_eq_ok.1 h
  obtain ⟨⟨maxLocals, b2⟩, h2, h⟩ := bind_eq_ok.1 h
  obtain ⟨⟨length, b3⟩, h3, h⟩ := bind_eq_ok.1 h
  obtain ⟨⟨code, b4⟩, h4, h⟩ := bind_eq_ok.1 h
  obtain ⟨⟨handlers, b5⟩, h5, h⟩ := bind_eq_ok.1 h
  obtain ⟨⟨inner, b6⟩, h6, h⟩ := bind_eq_ok.1 h
  cases h
  obtain ⟨hb4, hlen⟩ := take_eq_ok.1 h4
  obtain ⟨hhandlers, hb5⟩ := finds_table finds_exceptionRange h5
  obtain ⟨hfits, hb6⟩ := hinner h6
  refine ⟨maxStack, maxLocals, code, handlers, inner, rfl, hhandlers, hfits, ?_⟩
  rw [u2_eq_ok.1 h1, u2_eq_ok.1 h2, u4_eq_ok.1 h3, hb4, hb5, hb6, body, hlen, UInt32.ofNat_toNat]
  simp

/-- What is read of a body that is used up is an attribute that can be written. -/
theorem content_eq_ok {name : UInt16} {info : Bytes} {a : Attribute}
    (hinner : Finds attributes tableBytes (Counted (Attribute.Fits pool)))
    (hsize : info.length ≤ greatestLength)
    (h : content attributes name (titleOf pool name) info = .ok (a, [])) :
    a.Fits pool ∧ a.name = name ∧ a.body = info := by
  unfold content at h
  split at h
  · next htitle =>
    obtain ⟨maxStack, maxLocals, code, handlers, inner, rfl, hhandlers, hfits, rfl⟩ :=
      codeBody_eq_ok hinner h
    rw [List.append_nil] at hsize ⊢
    exact ⟨.code htitle hsize hhandlers.length_le hfits.length_le hfits.all, rfl, rfl⟩
  · next htitle =>
    obtain ⟨frames, rfl, hframes, rfl⟩ := tableOf_eq_ok finds_frame h
    rw [List.append_nil] at hsize ⊢
    exact ⟨.stackMapTable htitle hsize hframes.length_le hframes.all, rfl, rfl⟩
  · next htitle =>
    obtain ⟨classes, rfl, hclasses, rfl⟩ := tableOf_eq_ok finds_u2 h
    rw [List.append_nil] at hsize ⊢
    exact ⟨.exceptions htitle hsize hclasses.length_le, rfl, rfl⟩
  · next htitle =>
    obtain ⟨entries, rfl, hentries, rfl⟩ := tableOf_eq_ok finds_lineEntry h
    rw [List.append_nil] at hsize ⊢
    exact ⟨.lineNumberTable htitle hsize hentries.length_le, rfl, rfl⟩
  · next htitle =>
    obtain ⟨entries, rfl, hentries, rfl⟩ := tableOf_eq_ok finds_localEntry h
    rw [List.append_nil] at hsize ⊢
    exact ⟨.localVariableTable htitle hsize hentries.length_le, rfl, rfl⟩
  · next htitle =>
    obtain ⟨entries, rfl, hentries, rfl⟩ := tableOf_eq_ok finds_localEntry h
    rw [List.append_nil] at hsize ⊢
    exact ⟨.localVariableTypeTable htitle hsize hentries.length_le, rfl, rfl⟩
  · next h1 h2 h3 h4 h5 h6 =>
    cases h
    refine ⟨.raw ?_ hsize, rfl, rfl⟩
    simp only [Named, titles, List.mem_cons, List.not_mem_nil, or_false, not_or]
    exact ⟨h1, h2, h3, h4, h5, h6⟩

end Bodies

/-! ## Attributes -/

section Attributes

variable {attributes : ClassReader (List Attribute)}

/-- An attribute is taken if what is inside of it is: that is shorter than it. -/
theorem takes_oneAttribute {a : Attribute} (h : a.Fits pool)
    (hinner : ∀ inner, Counted (Attribute.Fits pool) inner →
      Takes limit attributes (tableBytes inner) inner) :
    Takes (limit + 1) (oneAttribute pool attributes) a.bytes a := by
  rw [bytes_eq, putAttribute, List.append_assoc]
  refine (takes_u2 a.name).bind_of_le fun hname => (takes_u4 _).bind_of_le fun hlength => ?_
  refine (takes_take (toNat_ofNat_of_le_length h.size).symm).map_of_le fun hbody rest => ?_
  have hle : a.body.length ≤ limit := by
    have h2 : (Bytes.put16 a.name).length = 2 := rfl
    omega
  dsimp only
  rw [content_body h hinner hle]
  rfl

theorem finds_oneAttribute (hinner : Finds attributes tableBytes (Counted (Attribute.Fits pool))) :
    Finds (oneAttribute pool attributes) Attribute.bytes (Attribute.Fits pool) := by
  intro bytes a rest h
  obtain ⟨⟨name, b1⟩, h1, h⟩ := bind_eq_ok.1 h
  obtain ⟨⟨length, b2⟩, h2, h⟩ := bind_eq_ok.1 h
  obtain ⟨⟨info, b3⟩, h3, h⟩ := bind_eq_ok.1 h
  obtain ⟨⟨b, left⟩, h4, h⟩ := bind_eq_ok.1 h
  dsimp only at h
  split at h
  · next hempty =>
    cases h
    obtain rfl : left = [] := List.isEmpty_iff.1 hempty
    obtain ⟨hb3, hlen⟩ := take_eq_ok.1 h3
    have hsize : info.length ≤ greatestLength := by
      have := length.toNat_lt
      unfold greatestLength
      omega
    obtain ⟨hfits, rfl, rfl⟩ := content_eq_ok hinner hsize h4
    refine ⟨hfits, ?_⟩
    rw [u2_eq_ok.1 h1, u4_eq_ok.1 h2, hb3, bytes_eq, putAttribute, hlen, UInt32.ofNat_toNat]
    simp
  · cases h

end Attributes

/-- Attributes are taken on inputs that are no longer than they may be nested. -/
theorem takes_attributes (pool : ConstantPool) (depth : Nat) :
    ∀ as, Counted (Attribute.Fits pool) as →
      Takes depth (attributes pool depth) (tableBytes as) as := by
  induction depth with
  | zero =>
    intro as _
    refine ⟨fun rest hle => ?_, fun part _ _ _ => rfl⟩
    have hcount : (putCount as.length).length = 2 := rfl
    simp only [tableBytes, List.length_append] at hle
    omega
  | succ depth ih =>
    intro as h
    rw [tableBytes_eq]
    exact takes_table h.length_le fun a ha => takes_oneAttribute (h.all a ha) ih

theorem finds_attributes (pool : ConstantPool) (depth : Nat) :
    Finds (attributes pool depth) tableBytes (Counted (Attribute.Fits pool)) := by
  induction depth with
  | zero =>
    intro bytes as rest h
    cases h
  | succ depth ih =>
    intro bytes as rest h
    rw [tableBytes_eq]
    exact finds_table (finds_oneAttribute ih) h

end ClassReader

end ValueCoverage
