import ValueCoverage.Proofs.ClassFile.RoundTrip
import ValueCoverage.Proofs.ConstantPool.Added

/-!
# Class files whose pool grows

Constants that are added to the pool of a class change the meaning of no index that had one. But an
attribute may be named by an index behind the pool, and then a constant that is added there gives it
a name. So a class that can be written still can be once its pool has grown, just if the new texts
fit their lengths and no attribute gets the name of a kind that it is not of.
-/

namespace ValueCoverage

/-! ## Attributes inside of attributes -/

/-- The attribute is another one, or stands in its code, at whatever depth. -/
inductive Attribute.Inside (a : Attribute) : Attribute → Prop where
  | self : Inside a a
  | code {name maxStack maxLocals : UInt16} {text : Bytes} {handlers : List ExceptionRange}
    {attributes : List Attribute} {b : Attribute} (hb : b ∈ attributes) (h : Inside a b) :
    Inside a (.code name maxStack maxLocals text handlers attributes)

theorem Attribute.Fits.inside {pool : ConstantPool} {a b : Attribute} (h : a.Inside b)
    (hb : b.Fits pool) : a.Fits pool := by
  induction h with
  | self => exact hb
  | code hmem _ ih =>
    cases hb with
    | code _ _ _ _ inner => exact ih (inner _ hmem)

/-- The lists of attributes of a class, its own one and those of its members. -/
def ClassFile.attributeLists (c : ClassFile) : List (List Attribute) :=
  c.attributes :: (c.fields ++ c.methods).map ClassMember.attributes

/-- The attribute stands in the class, at whatever depth. -/
def ClassFile.Holds (c : ClassFile) (a : Attribute) : Prop :=
  ∃ attributes ∈ c.attributeLists, ∃ b ∈ attributes, a.Inside b

section Lists

variable {c : ClassFile} {pool : ConstantPool}

/-- What can be written of a class apart from its pool is told by its lists of attributes. -/
theorem ClassFile.fits_iff : c.Fits ↔
    c.pool.Fits ∧ c.interfaces.length ≤ ClassReader.greatestCount ∧
    c.fields.length ≤ ClassReader.greatestCount ∧ c.methods.length ≤ ClassReader.greatestCount ∧
    ∀ attributes ∈ c.attributeLists, ClassReader.Counted (Attribute.Fits c.pool) attributes := by
  simp only [attributeLists, List.map_append, List.mem_cons, List.mem_append, List.mem_map,
    forall_eq_or_imp]
  constructor
  · rintro ⟨hpool, hinterfaces, hfields, hmethods, hattributes⟩
    refine ⟨hpool, hinterfaces, hfields.length_le, hmethods.length_le, hattributes, ?_⟩
    rintro attributes (⟨m, hm, rfl⟩ | ⟨m, hm, rfl⟩)
    · exact hfields.all m hm
    · exact hmethods.all m hm
  · rintro ⟨hpool, hinterfaces, hfields, hmethods, hattributes, hall⟩
    exact ⟨hpool, hinterfaces, ⟨hfields, fun m hm => hall _ (.inl ⟨m, hm, rfl⟩)⟩,
      ⟨hmethods, fun m hm => hall _ (.inr ⟨m, hm, rfl⟩)⟩, hattributes⟩

end Lists

/-! ## Names -/

namespace ConstantPool

variable {p q : ConstantPool}

/-- No slot of the old pool changes, empty or not. -/
theorem Grown.get?_eq (h : p.Grown q) {i : Nat} (hi : i < p.slots.size) : q.get? i = p.get? i := by
  obtain ⟨added, hadded⟩ := h
  unfold ConstantPool.get?
  split
  · rfl
  · rw [← Array.getElem?_toList, ← Array.getElem?_toList, ← hadded,
      List.getElem?_append_left (by simpa using hi)]

theorem Grown.titleOf_eq (h : p.Grown q) {name : UInt16} (hi : name.toNat < p.slots.size) :
    ClassReader.titleOf q name = ClassReader.titleOf p name := by
  unfold ClassReader.titleOf ConstantPool.getUtf8 ConstantPool.constantAt
  rw [h.get?_eq hi]

/-- Behind the pool there are no names. -/
theorem titleOf_of_le {name : UInt16} (h : p.slots.size ≤ name.toNat) :
    ClassReader.titleOf p name = "" := by
  have hget : p.get? name.toNat = none := by
    unfold ConstantPool.get?
    split
    · rfl
    · rw [Array.getElem?_eq_none h]
      rfl
  have htext : p.getUtf8 name = .error (.invalidPoolIndex name) := by
    unfold ConstantPool.getUtf8 ConstantPool.constantAt
    rw [hget]
    rfl
  unfold ClassReader.titleOf
  rw [htext]

/-- A name that is not empty is one in every later pool. -/
theorem Grown.titleOf_of_ne (h : p.Grown q) {name : UInt16} {title : String}
    (htitle : ClassReader.titleOf p name = title) (hne : title ≠ "") :
    ClassReader.titleOf q name = title := by
  have hi : name.toNat < p.slots.size :=
    Nat.lt_of_not_le fun hle => hne (htitle.symm.trans (titleOf_of_le hle))
  rw [h.titleOf_eq hi, htitle]

end ConstantPool

/-- The attributes that an index behind the old pool names do not get the name of a kind. -/
def Attribute.Unnamed (p q : ConstantPool) (a : Attribute) : Prop :=
  ∀ name info, (Attribute.raw name info).Inside a → p.slots.size ≤ name.toNat →
    ClassReader.titleOf q name ∉ titles

theorem Attribute.Fits.grown {p q : ConstantPool} {a : Attribute} (h : a.Fits p)
    (hgrown : p.Grown q) (hunnamed : a.Unnamed p q) : a.Fits q := by
  induction h with
  | code named size handlers_le attributes_le _ ih =>
    exact .code (hgrown.titleOf_of_ne named (by decide)) size handlers_le attributes_le
      fun a ha => ih a ha fun name info hinside => hunnamed name info (.code ha hinside)
  | stackMapTable named size frames_le all =>
    exact .stackMapTable (hgrown.titleOf_of_ne named (by decide)) size frames_le all
  | exceptions named size classes_le =>
    exact .exceptions (hgrown.titleOf_of_ne named (by decide)) size classes_le
  | lineNumberTable named size entries_le =>
    exact .lineNumberTable (hgrown.titleOf_of_ne named (by decide)) size entries_le
  | localVariableTable named size entries_le =>
    exact .localVariableTable (hgrown.titleOf_of_ne named (by decide)) size entries_le
  | localVariableTypeTable named size entries_le =>
    exact .localVariableTypeTable (hgrown.titleOf_of_ne named (by decide)) size entries_le
  | @raw name info named size =>
    refine .raw ?_ size
    by_cases hle : p.slots.size ≤ name.toNat
    · exact hunnamed name info .self hle
    · have hsame := hgrown.titleOf_eq (Nat.lt_of_not_le hle)
      show ClassReader.titleOf q name ∉ titles
      rw [hsame]
      exact named

/-! ## Classes -/

theorem ConstantPool.GrownBy.grown {allowed : Constant → Prop} {p q : ConstantPool}
    (h : p.GrownBy allowed q) : p.Grown q := by
  obtain ⟨added, hq, -⟩ := h
  exact ⟨added.map some, hq.symm⟩

/-- A class that can be written can be written with the grown pool just if the texts fit and the
attributes without a name get none of a kind. -/
theorem ClassFile.fits_grownBy_iff {c : ClassFile} {q : ConstantPool} {allowed : Constant → Prop}
    (h : c.Fits) (hgrown : c.pool.GrownBy allowed q) (hnarrow : ∀ k, allowed k → k.isWide = false)
    (hsize : q.slots.size ≤ ClassReader.greatestCount) :
    ClassFile.Fits { c with pool := q } ↔
      (∀ text, some (.utf8 text) ∈ q.slots.toList → text.length ≤ ClassReader.greatestCount) ∧
      ∀ name info, c.Holds (.raw name info) → c.pool.slots.size ≤ name.toNat →
        ClassReader.titleOf q name ∉ Attribute.titles := by
  obtain ⟨hpool, hinterfaces, hfields, hmethods, hlists⟩ := ClassFile.fits_iff.1 h
  constructor
  · intro hq
    refine ⟨fun text htext => hq.pool.constants _ htext, ?_⟩
    rintro name info ⟨attributes, hmem, b, hb, hinside⟩ -
    have hfits := (ClassFile.fits_iff.1 hq).2.2.2.2 attributes hmem
    exact ((hfits.all b hb).inside hinside).named
  · rintro ⟨htexts, hnames⟩
    refine ClassFile.fits_iff.2 ⟨⟨hgrown.laid hpool.laid hnarrow, hsize, fun k hk => ?_⟩,
      hinterfaces, hfields, hmethods,
      fun attributes hmem => ⟨(hlists attributes hmem).length_le, fun a ha => ?_⟩⟩
    · cases k with
      | utf8 text => exact htexts text hk
      | _ => trivial
    · exact ((hlists attributes hmem).all a ha).grown hgrown.grown fun name info hinside =>
        hnames name info ⟨attributes, hmem, a, ha, hinside⟩

end ValueCoverage
