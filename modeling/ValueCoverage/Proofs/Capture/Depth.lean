import ValueCoverage.Proofs.Capture.Instrumented
import ValueCoverage.Proofs.ConstantPool.Calls
import ValueCoverage.Proofs.Ordered

/-!
# How deep the operand stack gets

What a verifier knows of the operand stack are the kinds of its values. Executed on them, code
reaches a greatest depth, and the depth that is worked out beforehand is that depth if the change
that is looked up for each call is what the descriptor of the called method says. For a prefix it
is, since no two methods that it calls share an index, whatever was in the pool before.
-/

namespace ValueCoverage

theorem Leads.of_cons {ε σ ι : Type} {step : σ → ι → Except ε σ} {i : ι} {code : List ι}
    {s s' : σ} (h : Leads step (i :: code) s s') :
    ∃ t, step s i = .ok t ∧ Leads step code t s' :=
  bind_eq_ok.1 ((List.foldlM_cons ..).symm.trans h)

/-- The kinds of the values on an operand stack, the top first. -/
structure StackShape where
  kinds : List LoadKind
deriving Repr, DecidableEq

namespace StackShape

open Activation (constant)
open Bytecode

/-! ## Shapes -/

def empty : StackShape := ⟨[]⟩

/-- How many words values of these kinds take. -/
def wordsOf (kinds : List LoadKind) : Nat := kinds.foldr (fun k n => k.stackWords + n) 0

/-- How many words the stack takes. -/
def words (s : StackShape) : Nat := wordsOf s.kinds

@[simp] theorem wordsOf_nil : wordsOf [] = 0 := rfl

@[simp] theorem wordsOf_cons (k : LoadKind) (kinds : List LoadKind) :
    wordsOf (k :: kinds) = k.stackWords + wordsOf kinds := rfl

@[simp] theorem wordsOf_append (kinds more : List LoadKind) :
    wordsOf (kinds ++ more) = wordsOf kinds + wordsOf more := by
  induction kinds with
  | nil => simp
  | cons k kinds ih => simp [ih, Nat.add_assoc]

/-- Puts values on the stack, the last of them first. -/
def push (s : StackShape) (kinds : List LoadKind) : StackShape := ⟨kinds ++ s.kinds⟩

@[simp] theorem words_push (s : StackShape) (kinds : List LoadKind) :
    (s.push kinds).words = wordsOf kinds + s.words := wordsOf_append kinds s.kinds

/-- Takes values off the stack, the top first, each of its kind. -/
def pop : List LoadKind → StackShape → Except Fault StackShape
  | [], s => .ok s
  | _ :: _, ⟨[]⟩ => .error .underflow
  | kind :: wanted, ⟨k :: kinds⟩ => if k = kind then pop wanted ⟨kinds⟩ else .error .wrongKind

theorem pop_push (s : StackShape) (kinds : List LoadKind) : pop kinds (s.push kinds) = .ok s := by
  induction kinds with
  | nil => rfl
  | cons k kinds ih => exact (if_pos rfl).trans ih

theorem eq_push_of_pop {kinds : List LoadKind} {s t : StackShape} (h : pop kinds s = .ok t) :
    s = t.push kinds := by
  induction kinds generalizing s with
  | nil => exact Except.ok.inj h
  | cons kind wanted ih =>
    obtain ⟨kinds⟩ := s
    cases kinds with
    | nil => cases h
    | cons k kinds =>
      unfold pop at h
      split at h
      · next hk =>
        have hrest := StackShape.mk.inj (ih h)
        simp [push, hk, hrest]
      · cases h

/-! ## Steps -/

/-- The method behind an index, by the kinds of what it takes, the last first, and returns. -/
def called (pool : ConstantPool) (index : UInt16) :
    Except Fault (List LoadKind × List LoadKind) := do
  let method ← constant (pool.methodAt? index)
  let type ← constant (Descriptor.readMethod method.descriptor).toOption
  return ((type.params.map FieldType.keptAs).reverse, (type.result.map FieldType.keptAs).toList)

/-- Executes one instruction as a verifier does. Only those of a prefix are supported. -/
def step (pool : ConstantPool) (s : StackShape) : Instruction → Except Fault StackShape
  | .nop => .ok s
  | .iconst _ | .bipush _ | .sipush _ => .ok (s.push [.int])
  | .ldc index => do
    let _ ← constant (pool.stringAt? (UInt16.ofNat index.toNat))
    return s.push [.reference]
  | .ldcWide index => do
    let _ ← constant (pool.stringAt? index)
    return s.push [.reference]
  | .load kind _ => .ok (s.push [kind])
  | .dup =>
    match s.kinds with
    | [] => .error .underflow
    | k :: _ => if k.stackWords = 1 then .ok (s.push [k]) else .error .wrongKind
  | .aastore => pop [.reference, .int, .reference] s
  | .anewarray index => do
    let _ ← constant (pool.classAt? index)
    return (← pop [.int] s).push [.reference]
  | .invokestatic index => do
    let (taken, returned) ← called pool index
    return (← pop taken s).push returned
  | .tableswitch _ _ _ _ | .lookupswitch _ _ | .other _ _ => .error .unsupported

/-- `effect` tells how the methods that the code calls change the depth. -/
def TellsCalls (pool : ConstantPool) (effect : UInt16 → Int) (code : List Instruction) : Prop :=
  ∀ index, .invokestatic index ∈ code → ∀ taken returned,
    called pool index = .ok (taken, returned) → effect index = wordsOf returned - wordsOf taken

variable {pool : ConstantPool} {effect : UInt16 → Int} {code : List Instruction} {i : Instruction}
  {s s' t : StackShape} {n : Nat}

/-- An instruction changes the depth as its effect says. -/
theorem words_step (heffect : TellsCalls pool effect [i]) (h : step pool s i = .ok t) :
    stackEffect effect i = .ok (t.words - s.words) := by
  have hconst : ∀ {β : Type} {x : Option β} {shape : StackShape},
      (constant x >>= fun _ => (pure shape : Except Fault StackShape)) = .ok t → t = shape := by
    intro β x shape hx
    obtain ⟨-, -, hx⟩ := bind_eq_ok.1 hx
    exact (Except.ok.inj hx).symm
  cases i with
  | nop =>
    cases h
    exact congrArg Except.ok (by omega)
  | iconst _ | bipush _ | sipush _ =>
    cases h
    exact congrArg Except.ok (by simp [LoadKind.stackWords])
  | ldc index | ldcWide index =>
    rw [hconst h]
    exact congrArg Except.ok (by simp [LoadKind.stackWords])
  | load kind slot =>
    cases h
    exact congrArg Except.ok (by simp)
  | dup =>
    obtain ⟨kinds⟩ := s
    cases kinds with
    | nil => cases h
    | cons k kinds =>
      unfold step at h
      dsimp only at h
      split at h
      · next hk =>
        cases h
        exact congrArg Except.ok (by simp [hk])
      · cases h
  | aastore =>
    rw [eq_push_of_pop h]
    refine congrArg Except.ok ?_
    simp only [words_push, wordsOf_cons, wordsOf_nil, LoadKind.stackWords]
    omega
  | anewarray index =>
    obtain ⟨-, -, h⟩ := bind_eq_ok.1 h
    obtain ⟨rest, hrest, h⟩ := bind_eq_ok.1 h
    cases h
    rw [eq_push_of_pop hrest]
    exact congrArg Except.ok (by simp [LoadKind.stackWords])
  | invokestatic index =>
    obtain ⟨⟨taken, returned⟩, hcalled, h⟩ := bind_eq_ok.1 h
    obtain ⟨rest, hrest, h⟩ := bind_eq_ok.1 h
    cases h
    rw [eq_push_of_pop hrest]
    refine congrArg Except.ok ?_
    rw [heffect index (by simp) taken returned hcalled, words_push, words_push]
    omega
  | tableswitch | lookupswitch | other => cases h

/-! ## The greatest depth -/

/-- Started on the shape, the code runs, and the greatest number of words on the way is `n`. -/
structure Peaks (pool : ConstantPool) (s : StackShape) (code : List Instruction) (n : Nat) :
    Prop where
  bounded : ∀ k, ∃ t, Leads (step pool) (code.take k) s t ∧ t.words ≤ n
  reached : ∃ k t, Leads (step pool) (code.take k) s t ∧ t.words = n

theorem Peaks.nil (pool : ConstantPool) (s : StackShape) : Peaks pool s [] s.words where
  bounded k := ⟨s, by rw [List.take_nil]; exact .nil, Nat.le_refl _⟩
  reached := ⟨0, s, .nil, rfl⟩

theorem Peaks.cons (hi : step pool s i = .ok t) (h : Peaks pool t code n) :
    Peaks pool s (i :: code) (max s.words n) where
  bounded k := by
    cases k with
    | zero => exact ⟨s, .nil, Nat.le_max_left _ _⟩
    | succ k =>
      obtain ⟨u, hu, hle⟩ := h.bounded k
      exact ⟨u, .cons hi hu, Nat.le_trans hle (Nat.le_max_right _ _)⟩
  reached := by
    obtain ⟨k, u, hu, heq⟩ := h.reached
    rcases Nat.le_total s.words n with hle | hle
    · exact ⟨k + 1, u, .cons hi hu, by omega⟩
    · exact ⟨0, s, .nil, by omega⟩

theorem Peaks.unique {m : Nat} (h : Peaks pool s code n) (h' : Peaks pool s code m) : n = m := by
  have hle {n m : Nat} (h : Peaks pool s code n) (h' : Peaks pool s code m) : n ≤ m := by
    obtain ⟨k, t, ht, rfl⟩ := h.reached
    obtain ⟨u, hu, hum⟩ := h'.bounded k
    cases Except.ok.inj (ht.symm.trans hu)
    exact hum
  exact Nat.le_antisymm (hle h h') (hle h' h)

/-- **The depth is worked out as it is reached**, in any code that runs. -/
theorem exists_peaks (heffect : TellsCalls pool effect code) (h : Leads (step pool) code s s') :
    ∃ n, Peaks pool s code n ∧ ∀ m : Int, s.words ≤ m →
      Leads (Depth.step effect) code ⟨s.words, m⟩ ⟨s'.words, max m n⟩ := by
  induction code generalizing s with
  | nil =>
    obtain rfl : s = s' := Except.ok.inj h
    refine ⟨s.words, .nil pool s, fun m hm => ?_⟩
    rw [Int.max_eq_left hm]
    exact .nil
  | cons i code ih =>
    obtain ⟨t, ht, hrest⟩ := h.of_cons
    obtain ⟨n, hpeaks, hdepth⟩ := ih (fun index hindex => heffect index (by simp [hindex])) hrest
    have hchange : stackEffect effect i = .ok (t.words - s.words) :=
      words_step (fun index hindex => heffect index (by simp_all)) ht
    refine ⟨max s.words n, hpeaks.cons ht, fun m hm => ?_⟩
    have hfirst : Depth.step effect ⟨s.words, m⟩ i = .ok ⟨t.words, max m t.words⟩ :=
      Depth.step_eq_ok hchange (by omega) (by omega) rfl
    have hlast := hdepth (max m t.words) (by omega)
    -- the depth after the step is among those that the rest passes
    have htn : t.words ≤ n := by
      obtain ⟨u, hu, hle⟩ := hpeaks.bounded 0
      cases Except.ok.inj hu
      exact hle
    rw [show max (max m (t.words : Int)) n = max m (max s.words n : Nat) from by omega] at hlast
    exact .cons hfirst hlast

/-! ## Prefixes -/

section Prefix

open Capture

variable {refs : CaptureRefs} {key : MemberKey} {descriptor : String} {params : List FieldType}
  {target : Target}

theorem step_pushInt (s : StackShape) (n : Int) :
    step pool s (.pushInt n) = .ok (s.push [.int]) := by
  unfold Instruction.pushInt
  split
  · rfl
  · split <;> rfl

theorem step_loadConstant {index : UInt16} {text : String} (h : pool.stringAt? index = some text)
    (s : StackShape) : step pool s (.loadConstant index) = .ok (s.push [.reference]) := by
  unfold Instruction.loadConstant
  split
  · next hshort =>
    have hindex : UInt16.ofNat (UInt8.ofNat index.toNat).toNat = index := by
      rw [UInt8.toNat_ofNat', Nat.mod_eq_of_lt (by omega), UInt16.ofNat_toNat]
    simp only [step, hindex, h]
    rfl
  · simp only [step, h]
    rfl

theorem called_valueOf {kind : Primitive} {index : UInt16}
    (h : pool.methodAt? index = some kind.valueOfMethod) :
    called pool index = .ok ([kind.keptAs], [.reference]) := by
  simp only [called, h, constant, bind, Except.bind, Primitive.valueOfMethod,
    Activation.readMethod_valueOfDescriptor, Except.toOption]
  rfl

theorem called_record {index : UInt16} (h : pool.methodAt? index = some target.methodName) :
    called pool index = .ok ([.reference, .reference, .reference, .reference], []) := by
  simp only [called, h, constant, bind, Except.bind, Target.methodName,
    Activation.readMethod_targetDescriptor, Except.toOption]
  rfl

theorem step_call {index : UInt16} {taken returned : List LoadKind}
    (h : called pool index = .ok (taken, returned)) (s : StackShape) :
    step pool (s.push taken) (.invokestatic index) = .ok (s.push returned) := by
  simp only [step, h, bind, Except.bind, pop_push]
  rfl

theorem leads_boxing (h : refs.Denote key descriptor params target pool) {t : FieldType}
    (ht : t ∈ params) (s : StackShape) :
    Leads (step pool) (boxing refs t) (s.push [t.keptAs]) (s.push [.reference]) := by
  unfold boxing
  cases hkind : t.primitive? with
  | none =>
    have hkept : t.keptAs = .reference := by
      rw [← Activation.loadKind_eq_keptAs, FieldType.loadKind, hkind]
    rw [hkept]
    exact .nil
  | some kind =>
    obtain ⟨index, hindex⟩ := h.exists_valueOf? ht hkind
    have hkept : t.keptAs = kind.keptAs := by
      rw [← Activation.loadKind_eq_keptAs, FieldType.loadKind, hkind]
      cases kind <;> rfl
    simp only [Option.bind_some, hindex, hkept]
    exact .one (step_call (called_valueOf (h.valueOf?_mean hindex)) s)

/-- An array on top of the stack stays there while arguments are stored in it. -/
theorem leads_storeArguments (h : refs.Denote key descriptor params target pool)
    {left : List FieldType} (hleft : ∀ t ∈ left, t ∈ params) (index : Nat) (slot : UInt16)
    (s : StackShape) :
    Leads (step pool) (storeArguments refs index (left.zip (slotSequence left slot)))
      (s.push [.reference]) (s.push [.reference]) := by
  induction left generalizing index slot with
  | nil => exact .nil
  | cons t rest ih =>
    have hboxing := leads_boxing h (hleft t (by simp)) (s.push [.int, .reference, .reference])
    refine .append (.append (.append ?_ hboxing) (.one rfl))
      (ih (fun u hu => hleft u (by simp [hu])) _ _)
    refine .cons rfl (.cons (step_pushInt _ _) (.one ?_))
    exact congrArg (fun k => Except.ok (StackShape.push _ [k])) (Activation.loadKind_eq_keptAs t)

/-- A prefix runs on an empty stack, and leaves it empty. -/
theorem leads_prefixCode (h : refs.Denote key descriptor params target pool) (isStatic : Bool) :
    Leads (step pool) (prefixCode params isStatic refs) empty empty := by
  have hrecord := step_call (called_record h.record) empty
  refine .append (.append ?_ (leads_storeArguments h (fun _ ht => ht) 0 _
    (empty.push [.reference, .reference, .reference]))) (.one hrecord)
  refine .cons (step_loadConstant h.owner _) (.cons (step_loadConstant h.member _) ?_)
  refine .cons (step_loadConstant h.signature _) (.cons (step_pushInt _ _) (.one ?_))
  simp only [step, h.elementClass]
  rfl

/-- A prefix calls the method that takes the arguments and methods that box. -/
theorem index_of_mem_prefixCode {isStatic : Bool} {index : UInt16}
    (h : .invokestatic index ∈ prefixCode params isStatic refs) :
    index = refs.record ∨ ∃ kind, refs.valueOf? kind = some index := by
  have hpush (n : Int) : .invokestatic index ≠ Instruction.pushInt n := by
    unfold Instruction.pushInt
    split
    · simp
    · split <;> simp
  have hload (i : UInt16) : .invokestatic index ≠ Instruction.loadConstant i := by
    unfold Instruction.loadConstant
    split <;> simp
  have hstore : ∀ {left : List (FieldType × UInt16)} {first : Nat},
      .invokestatic index ∈ storeArguments refs first left →
      ∃ kind, refs.valueOf? kind = some index := by
    intro left
    induction left with
    | nil => simp [storeArguments]
    | cons p rest ih =>
      intro first hmem
      simp only [storeArguments, storeArgument, List.mem_append, List.mem_cons, List.not_mem_nil,
        or_false, hpush, reduceCtorEq, false_or] at hmem
      rcases hmem with hmem | hmem
      · unfold boxing at hmem
        split at hmem
        · next i hi =>
          obtain ⟨kind, -, hkind⟩ := Option.bind_eq_some_iff.1 hi
          cases List.mem_singleton.1 hmem
          exact ⟨kind, hkind⟩
        · cases hmem
      · exact ih hmem
  simp only [prefixCode, List.mem_append, List.mem_cons, List.not_mem_nil, or_false, hpush, hload,
    reduceCtorEq, false_or] at h
  rcases h with h | h
  · exact .inr (hstore h)
  · exact .inl (Instruction.invokestatic.inj h)

/-- What is looked up for a call of a prefix is what its method does. -/
theorem tellsCalls_prefixCode (h : refs.Denote key descriptor params target pool)
    (isStatic : Bool) : TellsCalls pool refs.callEffect (prefixCode params isStatic refs) := by
  intro index hindex taken returned hcalled
  rcases index_of_mem_prefixCode hindex with rfl | ⟨kind, hkind⟩
  · cases Except.ok.inj (hcalled.symm.trans (called_record h.record))
    exact refs.callEffect_record
  · cases Except.ok.inj (hcalled.symm.trans (called_valueOf (h.valueOf?_mean hkind)))
    rw [h.callEffect_valueOf hkind]
    cases kind <;> rfl

theorem peaks_prefixCode (h : refs.Denote key descriptor params target pool) (isStatic : Bool) :
    Peaks pool empty (prefixCode params isStatic refs) (peakOf params) := by
  obtain ⟨n, hpeaks, hdepth⟩ :=
    exists_peaks (tellsCalls_prefixCode h isStatic) (leads_prefixCode h isStatic)
  have hsame := Except.ok.inj ((hdepth 0 (Int.le_refl 0)).symm.trans
    (ValueCoverage.Capture.leads_prefixCode h isStatic))
  have hn : n = peakOf params := by
    have := congrArg Depth.peak hsame
    dsimp only at this
    omega
  exact hn ▸ hpeaks

end Prefix

end StackShape

namespace Capture

/-- The greatest depth in a prefix for these parameters, of which there is one at least. -/
def peakWords (params : List FieldType) : Nat :=
  if params.any fun t => t.primitive? = some .long ∨ t.primitive? = some .double then 8 else 7

theorem peakOf_eq_peakWords {params : List FieldType} (h : params ≠ []) :
    peakOf params = peakWords params := by
  have hwidth (t : FieldType) : t.width =
      if t.primitive? = some .long ∨ t.primitive? = some .double then 2 else 1 := by
    unfold FieldType.width
    cases t.primitive? with
    | none => rfl
    | some kind => cases kind <;> rfl
  induction params with
  | nil => exact absurd rfl h
  | cons t rest ih =>
    have hrest : peakOf rest = if rest = [] then 4 else peakWords rest := by
      split
      · next hnil => rw [hnil]; rfl
      · next hne => exact ih hne
    have hpeak : peakOf (t :: rest) = max (6 + t.width) (peakOf rest) := rfl
    rw [hpeak, hrest, hwidth]
    simp only [peakWords, List.any_cons, Bool.or_eq_true, decide_eq_true_eq]
    rcases eq_or_ne rest [] with rfl | hne
    · split <;> simp_all
    · split <;> split <;> simp_all

end Capture

namespace CaptureRefs

open Capture ConstantPool

variable {refs : CaptureRefs} {key : MemberKey} {descriptor : String} {params : List FieldType}
  {target : Target} {pool : ConstantPool}

/-- There is an index for the boxing method of each primitive type among the parameters, and for no
other. -/
theorem Denote.exists_valueOf?_iff (h : refs.Denote key descriptor params target pool)
    (kind : Primitive) :
    (∃ index, refs.valueOf? kind = some index) ↔ ∃ t ∈ params, t.primitive? = some kind := by
  constructor
  · rintro ⟨index, hindex⟩
    have hmem : kind ∈ refs.valueOf.map Prod.fst :=
      List.mem_map.2 ⟨_, mem_of_valueOf? hindex, rfl⟩
    rw [h.kinds, kindsOf, List.mem_eraseDups] at hmem
    exact List.mem_filterMap.1 hmem
  · rintro ⟨t, ht, hkind⟩
    exact h.exists_valueOf? ht hkind

/-- No two methods that a capture calls share an index. -/
theorem Denote.nodup (h : refs.Denote key descriptor params target pool) :
    (refs.record :: refs.valueOf.map Prod.snd).Nodup := by
  have hkinds : refs.valueOf.Pairwise fun a b => a.1 ≠ b.1 := by
    have hnodup : (refs.valueOf.map Prod.fst).Nodup := by
      rw [h.kinds]
      exact nodup_eraseDups _
    exact List.pairwise_map.1 hnodup
  refine List.nodup_cons.2 ⟨?_, List.pairwise_map.2 ?_⟩
  · intro hmem
    obtain ⟨e, he, hindex⟩ := List.mem_map.1 hmem
    have hsame := h.record.symm.trans (hindex ▸ h.valueOf e he)
    exact e.1.valueOfDescriptor_ne_target
      (congrArg MethodName.descriptor (Option.some.inj hsame)).symm
  · refine hkinds.imp_of_mem ?_
    intro a b ha hb hne heq
    have hsame := (h.valueOf a ha).symm.trans (heq ▸ h.valueOf b hb)
    exact hne (Primitive.valueOfDescriptor_injective
      (congrArg MethodName.descriptor (Option.some.inj hsame)))

end CaptureRefs

namespace Instrumenter

open Capture

variable {r : Instrumenter} {c : ClassFile} {w : Rewriting} {ts : List Treatment} {i : Nat}

/-- A method without parameters is not instrumented. -/
theorem Treats.params_ne_nil (h : Treats r c w ts) (hi : i ∈ w.methods.instrumented)
    {m : ClassMember} {method : Member} {type : MethodType} (hm : c.methods[i]? = some m)
    (hasked : Asked r c w.owner m method)
    (htype : Descriptor.readMethod method.descriptor = .ok type) : type.params ≠ [] := by
  intro hnil
  rw [h.instrumented, List.mem_filterMap] at hi
  obtain ⟨t, ht, hplace⟩ := hi
  obtain ⟨k, hk⟩ := List.mem_iff_getElem?.1 ht
  have hbefore : c.methods[k]? = some t.before := by rw [← h.before, List.getElem?_map, hk]; rfl
  have hmeets := h.meets k t hk
  cases hmeets with
  | passed _ => cases hplace
  | malformed _ => cases hplace
  | refused _ _ => cases hplace
  | instrumented hdecides _ =>
    cases hdecides with
    | instrument hasked' htype' hparams =>
      cases hplace
      cases Option.some.inj (hbefore.symm.trans hm)
      cases Except.ok.inj (hasked'.member.symm.trans hasked.member)
      cases Except.ok.inj (htype'.symm.trans htype)
      exact hparams hnil

end Instrumenter

namespace CaptureRefs

open Bytecode Capture ConstantPool Instrumenter

/-- **What a capture refers to and how deep its stack gets.** The indices mean what they should in
the pool that is left and in every later one, no two called methods share one, and there is one for
each primitive type among the parameters. So the depth that is worked out for a prefix is the one
that it reaches, eight words if a parameter is wide and seven if none is, and an instrumented method
has room for that and for what it had room for before. -/
theorem capture_depth :
    (∀ (p q : ConstantPool) (key : MemberKey) (descriptor : String) (params : List FieldType)
      (target : Target) (refs : CaptureRefs),
      p.Sound → (intern key descriptor params target).on p = (.ok refs, q) →
      (∀ later, q.Grown later → refs.Denote key descriptor params target later) ∧
      (∀ requests, refs.Denote key descriptor params target (afterRequests requests q)) ∧
      (∀ kind, (∃ index, refs.valueOf? kind = some index) ↔
        ∃ t ∈ params, t.primitive? = some kind) ∧
      (refs.record :: refs.valueOf.map Prod.snd).Nodup ∧
      (params ≠ [] → ∀ isStatic : Bool,
        StackShape.Peaks q .empty (prefixCode params isStatic refs) (peakWords params) ∧
        peakDepth refs.callEffect (prefixCode params isStatic refs) =
          .ok (UInt16.ofNat (peakWords params)))) ∧
    ∀ (r : Instrumenter) (bytes : Bytes) (c : ClassFile) (w : Rewriting) (i : Nat),
      ClassFile.read bytes = .ok c → r.rewrite c = .ok w → i ∈ w.methods.instrumented →
      ∃ (before after : ClassMember) (old new : Code) (method : Member) (type : MethodType),
        c.methods[i]? = some before ∧ w.methods.file.methods[i]? = some after ∧
        before.code? = some old ∧ after.code? = some new ∧
        memberOf c w.owner before = .ok method ∧
        Descriptor.readMethod method.descriptor = .ok type ∧
        new.maxStack = max old.maxStack (UInt16.ofNat (peakWords type.params)) := by
  constructor
  · intro p q key descriptor params target refs hp hrun
    obtain ⟨q', -, -, ⟨refs', hrun', hdenote⟩ | hrun'⟩ :=
      intern_yields key descriptor params target p hp
    · cases hrun.symm.trans hrun'
      refine ⟨fun later hlater => hdenote.grown hlater,
        fun requests => hdenote.grown (grown_afterRequests requests q), hdenote.exists_valueOf?_iff,
        hdenote.nodup, fun hparams isStatic => ?_⟩
      rw [← peakOf_eq_peakWords hparams]
      exact ⟨StackShape.peaks_prefixCode hdenote isStatic, peakDepth_prefixCode hdenote isStatic⟩
    · cases hrun.symm.trans hrun'
  · intro r bytes c w i hread hw hi
    obtain ⟨ts, h⟩ := Treats.of_read hread hw
    obtain ⟨method, type, before, after, code, refs, hbefore, hafter, hasked, htype, hp⟩ :=
      h.exists_prefixed hi
    have hparams := h.params_ne_nil hi hbefore hasked htype
    refine ⟨before, after, code, _, method, type, hbefore, hafter, hp.body, hp.code?_after,
      hasked.member, htype, ?_⟩
    rw [← peakOf_eq_peakWords hparams]
    rfl

/-- The types of `(IJI)`. -/
def intLongInt : List FieldType :=
  [⟨0, .primitive .int⟩, ⟨0, .primitive .long⟩, ⟨0, .primitive .int⟩]

/-- In a pool that has a wide constant, and in a class of which one method is instrumented. -/
theorem capture_depth_intLong :
    (∃ refs q, ClassFile.nestedPool.Sound ∧
      (intern ⟨"A", "f(IJI)V"⟩ "(IJI)V" intLongInt .collector).on ClassFile.nestedPool =
        (.ok refs, q) ∧
      refs.valueOf.length = 2 ∧ (refs.record :: refs.valueOf.map Prod.snd).Nodup ∧
      q.stringAt? refs.member = some "f(IJI)V" ∧
      peakDepth refs.callEffect (prefixCode intLongInt true refs) = .ok 8) ∧
    ∃ c w before after old new, ClassFile.read smallClass = .ok c ∧
      observant.rewrite c = .ok w ∧ 0 ∈ w.methods.instrumented ∧ c.methods[0]? = some before ∧
      w.methods.file.methods[0]? = some after ∧ before.code? = some old ∧
      after.code? = some new ∧ new.maxStack = max old.maxStack 8 := by
  constructor
  · have hsound : ClassFile.nestedPool.Sound := ⟨rfl, by decide⟩
    have hrun : ((intern ⟨"A", "f(IJI)V"⟩ "(IJI)V" intLongInt .collector).on
        ClassFile.nestedPool).1.toOption.any (fun refs => refs.valueOf.length = 2) = true := by
      decide +kernel
    simp only [Option.any_eq_true, toOption_eq_some, decide_eq_true_eq] at hrun
    obtain ⟨refs, hrefs, hlength⟩ := hrun
    obtain ⟨hlater, -, -, hnodup, hpeak⟩ :=
      capture_depth.1 _ _ _ _ _ _ _ hsound (Prod.ext hrefs rfl)
    exact ⟨refs, _, hsound, Prod.ext hrefs rfl, hlength, hnodup, (hlater _ (.refl _)).member,
      (hpeak (by decide) true).2⟩
  · obtain ⟨c, w, before, old, hread, hw, howner, hplaces, hbefore, haccess, hmethod, hold, -⟩ :=
      smallClass_rewrite
    have hi : 0 ∈ w.methods.instrumented := by simp [hplaces]
    obtain ⟨before', after, old', new, method, type, hbefore', hafter, hold', hnew, hmethod', htype,
      hmax⟩ := capture_depth.2 observant smallClass c w 0 hread hw hi
    cases Option.some.inj (hbefore.symm.trans hbefore')
    cases Except.ok.inj (hmethod.symm.trans hmethod')
    cases htype
    exact ⟨c, w, before, after, old', new, hread, hw, hi, hbefore, hafter, hold', hnew, hmax⟩

end CaptureRefs

end ValueCoverage
