import ValueCoverage.Bytecode.StackDepth
import ValueCoverage.Capture.Prefix
import ValueCoverage.Proofs.ConstantPool.Interning
import ValueCoverage.Proofs.Steps

/-!
# What the constants of a capture mean

Interning the constants of a capture yields indices that mean, in the pool that it leaves and in
every later one, what the prefix needs them to mean. No two methods among them share an index, so
the change of the stack that is looked up for a call is that of the method called, and the depth of
the stack in the prefix is known beforehand.
-/

namespace ValueCoverage

/-- The method that boxes a primitive type. -/
def Primitive.valueOfMethod (kind : Primitive) : MethodName :=
  ⟨kind.boxClass, "valueOf", kind.valueOfDescriptor⟩

/-- The method that takes the arguments. -/
def Target.methodName (t : Target) : MethodName :=
  ⟨t.owner, t.method, Target.descriptor⟩

namespace Primitive

theorem toList_valueOfDescriptor (kind : Primitive) :
    kind.valueOfDescriptor.toList =
      '(' :: kind.tag :: ")L".toList ++ kind.boxClass.toList ++ [';'] := by
  simp [valueOfDescriptor]

theorem valueOfDescriptor_injective {a b : Primitive}
    (h : a.valueOfDescriptor = b.valueOfDescriptor) : a = b := by
  have hl := congrArg String.toList h
  rw [toList_valueOfDescriptor, toList_valueOfDescriptor] at hl
  have htag : a.tag = b.tag := by
    simp only [List.cons_append, List.cons.injEq] at hl
    exact hl.2.1
  have ha := ofTag?_tag a
  rw [htag, ofTag?_tag] at ha
  exact (Option.some.inj ha).symm

/-- What takes the arguments takes a class first, and what boxes takes a primitive type. -/
theorem valueOfDescriptor_ne_target (kind : Primitive) :
    kind.valueOfDescriptor ≠ Target.descriptor := by
  intro h
  have hl := congrArg String.toList h
  rw [toList_valueOfDescriptor] at hl
  have htag : kind.tag = 'L' := by
    have htarget : Target.descriptor.toList.tail.head? = some 'L' := by decide
    rw [← hl] at htarget
    simpa using htarget
  cases kind <;> simp [tag] at htag

end Primitive

namespace CaptureRefs

/-- In the pool, the indices mean what a capture of the parameters needs. -/
structure Denote (refs : CaptureRefs) (key : MemberKey) (descriptor : String)
    (params : List FieldType) (target : Target) (pool : ConstantPool) : Prop where
  owner : pool.stringAt? refs.owner = some key.owner
  member : pool.stringAt? refs.member = some key.member
  signature : pool.stringAt? refs.signature = some descriptor
  elementClass : pool.classAt? refs.elementClass = some objectClass
  record : pool.methodAt? refs.record = some target.methodName
  kinds : refs.valueOf.map Prod.fst = kindsOf params
  valueOf : ∀ e ∈ refs.valueOf, pool.methodAt? e.2 = some e.1.valueOfMethod

section Meaning

variable {refs : CaptureRefs} {key : MemberKey} {descriptor : String} {params : List FieldType}
  {target : Target} {pool : ConstantPool}

theorem Denote.grown (h : refs.Denote key descriptor params target pool) {later : ConstantPool}
    (hgrown : pool.Grown later) : refs.Denote key descriptor params target later where
  owner := hgrown.stringAt? h.owner
  member := hgrown.stringAt? h.member
  signature := hgrown.stringAt? h.signature
  elementClass := hgrown.classAt? h.elementClass
  record := hgrown.methodAt? h.record
  kinds := h.kinds
  valueOf := fun e he => hgrown.methodAt? (h.valueOf e he)

theorem mem_of_valueOf? {kind : Primitive} {i : UInt16} (h : refs.valueOf? kind = some i) :
    (kind, i) ∈ refs.valueOf := by
  obtain ⟨front, back, hsplit, -⟩ := List.lookup_eq_some_iff.1 h
  simp [hsplit]

theorem Denote.valueOf?_mean (h : refs.Denote key descriptor params target pool)
    {kind : Primitive} {i : UInt16} (hi : refs.valueOf? kind = some i) :
    pool.methodAt? i = some kind.valueOfMethod :=
  h.valueOf (kind, i) (mem_of_valueOf? hi)

/-- Every primitive parameter has its boxing method. -/
theorem Denote.exists_valueOf? (h : refs.Denote key descriptor params target pool) {t : FieldType}
    (ht : t ∈ params) {kind : Primitive} (hkind : t.primitive? = some kind) :
    ∃ i, refs.valueOf? kind = some i := by
  have hmem : kind ∈ refs.valueOf.map Prod.fst := by
    rw [h.kinds, kindsOf, List.mem_eraseDups]
    exact List.mem_filterMap.2 ⟨t, ht, hkind⟩
  cases hlookup : refs.valueOf? kind with
  | some i => exact ⟨i, rfl⟩
  | none =>
    obtain ⟨e, he, rfl⟩ := List.mem_map.1 hmem
    have := List.lookup_eq_none_iff.1 hlookup e he
    simp at this

theorem callEffect_record : refs.callEffect refs.record = -4 :=
  if_pos rfl

theorem Denote.callEffect_valueOf (h : refs.Denote key descriptor params target pool)
    {kind : Primitive} {i : UInt16} (hi : refs.valueOf? kind = some i) :
    refs.callEffect i = if kind.isWide then -1 else 0 := by
  have hmean := h.valueOf?_mean hi
  have hne : i ≠ refs.record := by
    rintro rfl
    have hsame := h.record.symm.trans hmean
    exact kind.valueOfDescriptor_ne_target
      (congrArg MethodName.descriptor (Option.some.inj hsame)).symm
  have hfound : (refs.valueOf.find? (·.2 = i)).isSome := by
    rw [List.find?_isSome]
    exact ⟨(kind, i), mem_of_valueOf? hi, by simp⟩
  obtain ⟨e, he⟩ := Option.isSome_iff_exists.1 hfound
  have hei : e.2 = i := by simpa using List.find?_some he
  -- another kind under the same index would be another method
  have hkind : e.1 = kind := by
    have hsame := h.valueOf e (List.mem_of_find?_eq_some he)
    rw [hei, hmean] at hsame
    exact (Primitive.valueOfDescriptor_injective
      (congrArg MethodName.descriptor (Option.some.inj hsame))).symm
  rw [callEffect, if_neg hne, he]
  simp only [hkind]

end Meaning

open ConstantPool ConstantPool.Interning

theorem internValueOf_yields (kinds : List Primitive) :
    Yields (internValueOf kinds) fun q found =>
      found.map Prod.fst = kinds ∧ ∀ e ∈ found, q.methodAt? e.2 = some e.1.valueOfMethod := by
  induction kinds with
  | nil => exact .pure fun q => ⟨rfl, by simp⟩
  | cons kind rest ih =>
    refine (internMethodref_yields _ _ _).bind Grown.methodAt? fun i => ?_
    refine ih.bind (fun hgrown h => ⟨h.1, fun e he => hgrown.methodAt? (h.2 e he)⟩) fun found => ?_
    refine .pure fun q hfound hi => ⟨by simp [hfound.1], fun e he => ?_⟩
    rcases List.mem_cons.1 he with rfl | he
    · exact hi
    · exact hfound.2 e he

theorem intern_yields (key : MemberKey) (descriptor : String) (params : List FieldType)
    (target : Target) :
    Yields (intern key descriptor params target) fun q refs =>
      refs.Denote key descriptor params target q := by
  refine (internValueOf_yields _).bind
    (fun hgrown h => ⟨h.1, fun e he => hgrown.methodAt? (h.2 e he)⟩) fun found => ?_
  refine (internString_yields _).bind Grown.stringAt? fun owner => ?_
  refine (internString_yields _).bind Grown.stringAt? fun member => ?_
  refine (internString_yields _).bind Grown.stringAt? fun signature => ?_
  refine (internClass_yields _).bind Grown.classAt? fun elementClass => ?_
  refine (internMethodref_yields _ _ _).bind Grown.methodAt? fun record => ?_
  exact .pure fun q hr he hs hm ho hv => ⟨ho, hm, hs, he, hr, hv.1, hv.2⟩

end CaptureRefs

/-! ## The depth of the stack -/

namespace Bytecode

/-- One instruction brings the depth to where its effect says. -/
theorem Depth.step_eq_ok {effect : UInt16 → Int} {i : Instruction} {c n m n' m' : Int}
    (hchange : stackEffect effect i = .ok c) (hnow : n + c = n') (hroom : 0 ≤ n')
    (hpeak : max m n' = m') : Depth.step effect ⟨n, m⟩ i = .ok ⟨n', m'⟩ := by
  subst hnow hpeak
  simp only [Depth.step, hchange, bind, Except.bind]
  rw [if_neg (by omega)]

end Bytecode

namespace Capture

open Bytecode

theorem stackEffect_pushInt (effect : UInt16 → Int) (n : Int) :
    stackEffect effect (.pushInt n) = .ok 1 := by
  unfold Instruction.pushInt
  split
  · rfl
  · split <;> rfl

theorem stackEffect_loadConstant (effect : UInt16 → Int) (i : UInt16) :
    stackEffect effect (.loadConstant i) = .ok 1 := by
  unfold Instruction.loadConstant
  split <;> rfl

theorem stackWords_loadKind (t : FieldType) : t.loadKind.stackWords = t.width := by
  unfold FieldType.loadKind FieldType.width
  cases t.primitive? with
  | none => rfl
  | some kind => cases kind <;> rfl

/-- The greatest depth of the stack while parameters are stored. -/
def peakOf (params : List FieldType) : Nat :=
  params.foldr (fun t n => max (6 + t.width) n) 4

section Depth

variable {refs : CaptureRefs} {key : MemberKey} {descriptor : String} {params : List FieldType}
  {target : Target} {pool : ConstantPool}

/-- Boxing leaves one word in the place of the value. -/
theorem leads_boxing (h : refs.Denote key descriptor params target pool) {t : FieldType}
    (ht : t ∈ params) {n m : Int} (hnow : 0 ≤ n) (hpeak : n + t.width ≤ m) :
    Leads (Depth.step refs.callEffect) (boxing refs t) ⟨n + t.width, m⟩ ⟨n + 1, m⟩ := by
  unfold boxing
  cases hkind : t.primitive? with
  | none =>
    have hw : t.width = 1 := by simp [FieldType.width, hkind]
    rw [hw]
    rfl
  | some kind =>
    obtain ⟨i, hi⟩ := h.exists_valueOf? ht hkind
    have heffect : stackEffect refs.callEffect (.invokestatic i) = .ok (1 - t.width) := by
      show Except.ok (refs.callEffect i) = _
      rw [h.callEffect_valueOf hi]
      cases hwide : kind.isWide <;> simp [FieldType.width, hkind, hwide]
    have hw : 1 ≤ t.width := by unfold FieldType.width; split <;> omega
    simp only [Option.bind_some, hi]
    exact .one (Depth.step_eq_ok heffect (by omega) (by omega) (by omega))

/-- With the array on top of three strings, storing a parameter brings the stack to its own peak and
back. -/
theorem leads_storeArgument (h : refs.Denote key descriptor params target pool) {t : FieldType}
    (ht : t ∈ params) (index : Nat) (slot : UInt16) {m : Int} (hpeak : 4 ≤ m) :
    Leads (Depth.step refs.callEffect) (storeArgument refs index t slot) ⟨4, m⟩
      ⟨4, max m (6 + t.width : Nat)⟩ := by
  have hload : stackEffect refs.callEffect (.load t.loadKind slot) = .ok t.width := by
    rw [← stackWords_loadKind]
    rfl
  -- the copy, the index and the value come on top of the four words below
  refine .append (.append ?_ (leads_boxing h ht (n := 6) (m := max m (6 + t.width : Nat))
    (by omega) (by omega))) (.one (Depth.step_eq_ok (c := -3) rfl (by omega) (by omega) (by omega)))
  refine .cons (Depth.step_eq_ok (c := 1) rfl rfl (by omega) rfl) ?_
  refine .cons (Depth.step_eq_ok (stackEffect_pushInt _ _) rfl (by omega) rfl) ?_
  exact .one (Depth.step_eq_ok hload (by omega) (by omega) (by omega))

theorem leads_storeArguments (h : refs.Denote key descriptor params target pool)
    {left : List FieldType} (hleft : ∀ t ∈ left, t ∈ params) (index : Nat) (slot : UInt16) {m : Int}
    (hpeak : 4 ≤ m) :
    Leads (Depth.step refs.callEffect)
      (storeArguments refs index (left.zip (slotSequence left slot))) ⟨4, m⟩
      ⟨4, max m (peakOf left)⟩ := by
  induction left generalizing index slot m with
  | nil =>
    rw [show max m (peakOf [] : Nat) = m from by simp only [peakOf, List.foldr_nil]; omega]
    rfl
  | cons t rest ih =>
    have hrest := ih (fun u hu => hleft u (by simp [hu])) (index + 1) (slot + UInt16.ofNat t.width)
      (m := max m (6 + t.width : Nat)) (by omega)
    rw [show max m (peakOf (t :: rest) : Nat) = max (max m (6 + t.width : Nat)) (peakOf rest)
      from by simp only [peakOf, List.foldr_cons]; omega]
    exact .append (leads_storeArgument h (hleft t (by simp)) index slot hpeak) hrest

theorem four_le_peakOf (params : List FieldType) : 4 ≤ peakOf params := by
  induction params with
  | nil => exact Nat.le_refl 4
  | cons t rest ih => simp only [peakOf, List.foldr_cons] at *; omega

/-- The prefix never takes from an empty stack, and leaves it empty. -/
theorem leads_prefixCode (h : refs.Denote key descriptor params target pool) (isStatic : Bool) :
    Leads (Depth.step refs.callEffect) (prefixCode params isStatic refs) ⟨0, 0⟩
      ⟨0, peakOf params⟩ := by
  have hpeak := four_le_peakOf params
  have hrecord : stackEffect refs.callEffect (.invokestatic refs.record) = .ok (-4) :=
    congrArg Except.ok refs.callEffect_record
  refine .append (.append ?_ (leads_storeArguments h (fun _ ht => ht) 0 _ (m := 4) (by omega)))
    (.one (Depth.step_eq_ok hrecord rfl (by omega) (by omega)))
  refine .cons (Depth.step_eq_ok (stackEffect_loadConstant _ _) rfl (by omega) rfl) ?_
  refine .cons (Depth.step_eq_ok (stackEffect_loadConstant _ _) rfl (by omega) rfl) ?_
  refine .cons (Depth.step_eq_ok (stackEffect_loadConstant _ _) rfl (by omega) rfl) ?_
  refine .cons (Depth.step_eq_ok (stackEffect_pushInt _ _) rfl (by omega) rfl) ?_
  exact .one (Depth.step_eq_ok (c := 0) rfl rfl (by omega) rfl)

/-- The peak of the prefix is that of its parameters. -/
theorem peakDepth_prefixCode (h : refs.Denote key descriptor params target pool) (isStatic : Bool) :
    peakDepth refs.callEffect (prefixCode params isStatic refs) =
      .ok (UInt16.ofNat (peakOf params)) := by
  unfold peakDepth
  rw [leads_prefixCode h isStatic]
  rfl

end Depth

end Capture

end ValueCoverage
