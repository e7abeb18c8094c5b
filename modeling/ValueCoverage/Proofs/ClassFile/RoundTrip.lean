import ValueCoverage.Proofs.ClassFile.Attribute
import ValueCoverage.Proofs.ClassFile.Reader
import ValueCoverage.Proofs.ConstantPool.Format

/-!
# Class files there and back

Reading and writing undo each other. What is read of bytes is written as the bytes it was read of; a
class that can be written is read back, whatever follows; and where the end of a class is cut off,
the bytes run out. So the bytes behind a class never matter, and no part of a class file is taken
for a class.
-/

namespace ValueCoverage

/-- The attributes of the member can be written. -/
def ClassMember.Fits (pool : ConstantPool) (m : ClassMember) : Prop :=
  ClassReader.Counted (Attribute.Fits pool) m.attributes

/-- The class can be written: all its parts fit their encodings, and the names of its attributes
name their kinds. -/
structure ClassFile.Fits (c : ClassFile) : Prop where
  pool : c.pool.Fits
  interfaces_le : c.interfaces.length ≤ ClassReader.greatestCount
  fields : ClassReader.Counted (ClassMember.Fits c.pool) c.fields
  methods : ClassReader.Counted (ClassMember.Fits c.pool) c.methods
  attributes : ClassReader.Counted (Attribute.Fits c.pool) c.attributes

/-- What stands behind the magic number. -/
def ClassFile.body (c : ClassFile) : Bytes :=
  Bytes.put16 c.minor ++ Bytes.put16 c.major ++ c.pool.bytes ++ Bytes.put16 c.access ++
  Bytes.put16 c.thisClass ++ Bytes.put16 c.superClass ++ putTable Bytes.put16 c.interfaces ++
  putTable ClassMember.bytes c.fields ++ putTable ClassMember.bytes c.methods ++
  Attribute.tableBytes c.attributes

theorem ClassFile.bytes_eq (c : ClassFile) : c.bytes = Bytes.put32 magic ++ c.body := by
  simp only [ClassFile.bytes, ClassFile.body, List.append_assoc]

namespace ClassReader

variable {depth : Nat}

theorem takes_classMember {pool : ConstantPool} {m : ClassMember} (h : m.Fits pool) :
    Takes depth (classMember pool depth) m.bytes m := by
  rw [ClassMember.bytes, List.append_assoc, List.append_assoc]
  exact (takes_u2 _).bind <| (takes_u2 _).bind <| (takes_u2 _).bind <|
    (takes_attributes pool depth _ h).map fun _ => rfl

theorem finds_classMember (pool : ConstantPool) (depth : Nat) :
    Finds (classMember pool depth) ClassMember.bytes (ClassMember.Fits pool) := by
  intro bytes m rest h
  obtain ⟨⟨access, b1⟩, h1, h⟩ := bind_eq_ok.1 h
  obtain ⟨⟨name, b2⟩, h2, h⟩ := bind_eq_ok.1 h
  obtain ⟨⟨descriptor, b3⟩, h3, h⟩ := bind_eq_ok.1 h
  obtain ⟨⟨inner, b4⟩, h4, h⟩ := bind_eq_ok.1 h
  cases h
  obtain ⟨hinner, hb4⟩ := finds_attributes pool depth h4
  refine ⟨hinner, ?_⟩
  rw [u2_eq_ok.1 h1, u2_eq_ok.1 h2, u2_eq_ok.1 h3, hb4]
  simp [ClassMember.bytes]

theorem takes_classBody {c : ClassFile} (h : c.Fits) :
    Takes depth (classBody depth) c.body c := by
  have hinterfaces : Takes depth (table u2) (putTable Bytes.put16 c.interfaces) c.interfaces :=
    takes_table h.interfaces_le fun w _ => takes_u2 w
  have hmember {m : ClassMember} (hm : m.Fits c.pool) :
      Takes depth (classMember c.pool depth) m.bytes m := takes_classMember hm
  have hfields := takes_table h.fields.length_le fun m hm => hmember (h.fields.all m hm)
  have hmethods := takes_table h.methods.length_le fun m hm => hmember (h.methods.all m hm)
  have hattributes := takes_attributes c.pool depth _ h.attributes
  rw [ClassFile.body]
  simp only [List.append_assoc]
  exact (takes_u2 _).bind <| (takes_u2 _).bind <| (takes_pool h.pool).bind <|
    (takes_u2 _).bind <| (takes_u2 _).bind <| (takes_u2 _).bind <| hinterfaces.bind <|
    hfields.bind <| hmethods.bind <| hattributes.map fun _ => rfl

theorem takes_classFileWithin {c : ClassFile} (h : c.Fits) :
    Takes depth (classFileWithin depth) c.bytes c := by
  rw [ClassFile.bytes_eq]
  refine (takes_u4 _).bind ?_
  simp only [ne_eq, not_true_eq_false, if_false]
  exact takes_classBody h

theorem finds_classBody (depth : Nat) : Finds (classBody depth) ClassFile.body ClassFile.Fits := by
  intro bytes c rest h
  obtain ⟨⟨minor, b1⟩, h1, h⟩ := bind_eq_ok.1 h
  obtain ⟨⟨major, b2⟩, h2, h⟩ := bind_eq_ok.1 h
  obtain ⟨⟨pool, b3⟩, h3, h⟩ := bind_eq_ok.1 h
  obtain ⟨⟨access, b4⟩, h4, h⟩ := bind_eq_ok.1 h
  obtain ⟨⟨this, b5⟩, h5, h⟩ := bind_eq_ok.1 h
  obtain ⟨⟨super, b6⟩, h6, h⟩ := bind_eq_ok.1 h
  obtain ⟨⟨interfaces, b7⟩, h7, h⟩ := bind_eq_ok.1 h
  obtain ⟨⟨fields, b8⟩, h8, h⟩ := bind_eq_ok.1 h
  obtain ⟨⟨methods, b9⟩, h9, h⟩ := bind_eq_ok.1 h
  obtain ⟨⟨attributes, b10⟩, h10, h⟩ := bind_eq_ok.1 h
  cases h
  obtain ⟨hpool, hb3⟩ := finds_pool h3
  obtain ⟨hinterfaces, hb7⟩ := finds_table finds_u2 h7
  obtain ⟨hfields, hb8⟩ := finds_table (finds_classMember pool depth) h8
  obtain ⟨hmethods, hb9⟩ := finds_table (finds_classMember pool depth) h9
  obtain ⟨hattributes, hb10⟩ := finds_attributes pool depth h10
  refine ⟨⟨hpool, hinterfaces.length_le, hfields, hmethods, hattributes⟩, ?_⟩
  rw [u2_eq_ok.1 h1, u2_eq_ok.1 h2, hb3, u2_eq_ok.1 h4, u2_eq_ok.1 h5, u2_eq_ok.1 h6, hb7, hb8,
    hb9, hb10]
  simp only [ClassFile.body, List.append_assoc]

theorem finds_classFileWithin (depth : Nat) :
    Finds (classFileWithin depth) ClassFile.bytes ClassFile.Fits := by
  intro bytes c rest h
  obtain ⟨⟨found, more⟩, hfound, h⟩ := bind_eq_ok.1 h
  simp only at h
  split at h
  · cases h
  · next hmagic =>
    obtain rfl : found = ClassFile.magic := Classical.not_not.1 hmagic
    obtain ⟨hfits, hmore⟩ := finds_classBody depth h
    refine ⟨hfits, ?_⟩
    rw [u4_eq_ok.1 hfound, hmore, ClassFile.bytes_eq, List.append_assoc]

end ClassReader

namespace ClassFile

variable {bytes rest : Bytes} {c : ClassFile}

/-! ## Reading -/

/-- What is read can be written. -/
theorem fits_of_read (h : ClassFile.read bytes = .ok c) : c.Fits := by
  obtain ⟨rest, h⟩ := read_eq_ok.1 h
  exact (ClassReader.finds_classFileWithin _ h).1

theorem classFile_append (h : c.Fits) (rest : Bytes) :
    ClassReader.classFile (c.bytes ++ rest) = .ok (c, rest) :=
  (ClassReader.takes_classFileWithin h).whole rest (Nat.le_refl _)

theorem read_append (h : c.Fits) (rest : Bytes) : ClassFile.read (c.bytes ++ rest) = .ok c :=
  read_eq_ok.2 ⟨rest, classFile_append h rest⟩

theorem read_bytes (h : c.Fits) : ClassFile.read c.bytes = .ok c := by
  have hread := read_append h []
  rwa [List.append_nil] at hread

theorem read_take (h : c.Fits) {k : Nat} (hk : k < c.bytes.length) :
    ClassFile.read (c.bytes.take k) = .error .unexpectedEnd := by
  have hne : c.bytes.take k ≠ c.bytes := by
    intro heq
    have hlen := congrArg List.length heq
    rw [List.length_take] at hlen
    omega
  have hcut : ClassReader.classFile (c.bytes.take k) = .error .unexpectedEnd :=
    (ClassReader.takes_classFileWithin h).cut _ (Nat.le_refl _) (List.take_prefix _ _) hne
  unfold ClassFile.read
  rw [hcut]
  rfl

/-! ## A class to try -/

/-- The pool of the class; the fifth constant is wide. -/
def nestedPool : ConstantPool where
  slots := #[none, some (.utf8 [65]), some (.classRef 1), some (.utf8 [102]),
    some (.utf8 [40, 41, 86]), some (.long (-1)), none, some (.utf8 [67, 111, 100, 101]),
    some (.utf8 [83, 116, 97, 99, 107, 77, 97, 112, 84, 97, 98, 108, 101])]

/-- Frames of all seven forms. -/
def nestedFrames : List Frame :=
  [.same 63, .sameItem 63 .null, .sameItemExtended 64 (.object 2), .chop 1 3, .sameExtended 300,
    .append 0 [.top, .uninitialized 0], .full 2 [.integer, .float] [.long, .double]]

/-- Code that has code inside of it, which has frames and an attribute without a known name. -/
def nestedCode : Attribute :=
  .code 7 1 2 [177] [⟨0, 1, 0, 2⟩] [.code 7 0 0 [] [] [.stackMapTable 8 nestedFrames, .raw 1 [9]]]

/-- A class `A` with a method `f`. -/
def nestedClass : ClassFile where
  minor := 0
  major := 52
  pool := nestedPool
  access := 1
  thisClass := 2
  superClass := 2
  interfaces := [2]
  fields := []
  methods := [⟨8, 3, 4, [nestedCode]⟩]
  attributes := [.raw 0 []]

theorem nestedPool_fits : nestedPool.Fits where
  laid := ⟨_, rfl, .narrow rfl <| .narrow rfl <| .narrow rfl <| .narrow rfl <| .wide rfl <|
    .narrow rfl <| .narrow rfl .nil⟩
  size_le := by decide
  constants := by
    have hall : ∀ slot ∈ nestedPool.slots.toList, ∀ c ∈ slot, c.Fits := by decide
    exact fun c hc => hall _ hc c rfl

theorem nestedCode_fits : nestedCode.Fits nestedPool := by
  have hframes : (Attribute.stackMapTable 8 nestedFrames).Fits nestedPool :=
    .stackMapTable (by decide +kernel) (by decide +kernel) (by decide) (by decide)
  have hraw : (Attribute.raw 1 [9]).Fits nestedPool := .raw (by decide +kernel) (by decide)
  have hinner : (Attribute.code 7 0 0 [] [] [.stackMapTable 8 nestedFrames, .raw 1 [9]]).Fits
      nestedPool :=
    .code (by decide +kernel) (by decide +kernel) (by decide) (by decide) (by simp [hframes, hraw])
  exact .code (by decide +kernel) (by decide +kernel) (by decide) (by decide)
    (by simpa using hinner)

theorem nestedClass_fits : nestedClass.Fits where
  pool := nestedPool_fits
  interfaces_le := by decide
  fields := ⟨by decide, by simp [nestedClass]⟩
  methods := by
    have hmethod : (ClassMember.mk 8 3 4 [nestedCode]).Fits nestedPool :=
      ⟨by simp [ClassReader.greatestCount], by simpa using nestedCode_fits⟩
    exact ⟨by simp [nestedClass, ClassReader.greatestCount], by simpa [nestedClass] using hmethod⟩
  attributes := by
    have hraw : (Attribute.raw 0 []).Fits nestedPool := .raw (by decide +kernel) (by decide)
    exact ⟨by simp [nestedClass, ClassReader.greatestCount], by simpa [nestedClass] using hraw⟩

/-! ## There and back -/

/-- **What is read is written as it stood**: the class takes up the front of the bytes, all that was
read of them, and if nothing was left, all of them. -/
theorem bytes_of_read (h : ClassFile.read bytes = .ok c) :
    c.bytes <+: bytes ∧ ∃ rest, ClassReader.classFile bytes = .ok (c, rest) ∧
      bytes = c.bytes ++ rest ∧ (rest = [] → c.bytes = bytes) := by
  obtain ⟨rest, hread⟩ := read_eq_ok.1 h
  have hbytes : bytes = c.bytes ++ rest := (ClassReader.finds_classFileWithin _ hread).2
  refine ⟨⟨rest, hbytes.symm⟩, rest, hread, hbytes, ?_⟩
  rintro rfl
  rw [hbytes, List.append_nil]

theorem bytes_of_read_nestedClass :
    ClassFile.read (nestedClass.bytes ++ [0xCA, 0xFE]) = .ok nestedClass ∧
    nestedClass.bytes <+: nestedClass.bytes ++ [0xCA, 0xFE] := by
  have hread := read_append nestedClass_fits [0xCA, 0xFE]
  exact ⟨hread, (bytes_of_read hread).1⟩

/-- **What is written is read back** just if every part fits its encoding, and the name of every
attribute names its kind. -/
theorem read_bytes_iff : ClassFile.read c.bytes = .ok c ↔ c.Fits :=
  ⟨fits_of_read, read_bytes⟩

theorem read_bytes_nestedClass : ClassFile.read nestedClass.bytes = .ok nestedClass :=
  read_bytes_iff.2 nestedClass_fits

/-- **A class ends where it ends**: where any of its bytes are missing, the bytes run out, and what
comes behind it makes no difference. -/
theorem read_of_read (h : ClassFile.read bytes = .ok c) :
    (∀ k < c.bytes.length, ClassFile.read (bytes.take k) = .error .unexpectedEnd) ∧
    ∀ rest, ClassFile.read (bytes.take c.bytes.length ++ rest) = .ok c := by
  have hfits := fits_of_read h
  obtain ⟨more, hread⟩ := read_eq_ok.1 h
  have hbytes : bytes = c.bytes ++ more := (ClassReader.finds_classFileWithin _ hread).2
  rw [hbytes]
  refine ⟨fun k hk => ?_, fun rest => ?_⟩
  · rw [List.take_append_of_le_length (Nat.le_of_lt hk)]
    exact read_take hfits hk
  · rw [List.take_left]
    exact read_append hfits rest

theorem read_of_read_nestedClass :
    ClassFile.read (nestedClass.bytes ++ [0xCA, 0xFE]) = .ok nestedClass ∧
    (∀ k < nestedClass.bytes.length,
      ClassFile.read ((nestedClass.bytes ++ [0xCA, 0xFE]).take k) = .error .unexpectedEnd) ∧
    ∀ rest, ClassFile.read (nestedClass.bytes ++ rest) = .ok nestedClass := by
  have hread := read_append nestedClass_fits [0xCA, 0xFE]
  have hends := read_of_read hread
  rw [List.take_left] at hends
  exact ⟨hread, hends⟩

end ClassFile

end ValueCoverage
