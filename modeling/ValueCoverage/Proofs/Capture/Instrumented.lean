import ValueCoverage.Proofs.Capture.PrefixRun
import ValueCoverage.Proofs.Capture.Rewriting
import ValueCoverage.Proofs.Capture.Shift

/-!
# Instrumented methods

What stands in front of the code of an instrumented method hands its arguments over, the old code is
read behind it as it was, and the tables of the code tell of the same instructions.
-/

namespace ValueCoverage

namespace Instrumenter

open Bytecode Capture

variable {r : Instrumenter} {c : ClassFile} {w : Rewriting} {bytes : Bytes} {i : Nat}

/-! ## Too many parameters -/

/-- What a decision about an observed method with parameters is. -/
theorem Decides.eq_instrument {owner : String} {m : ClassMember} {method : Member}
    {type : MethodType}
    {d : Decision} (h : Decides r c owner i m d) (hasked : Asked r c owner m method)
    (htype : Descriptor.readMethod method.descriptor = .ok type) (hparams : type.params ≠ []) :
    d = .instrument (plan owner i m method type) := by
  have hsame {other : Member} (hother : memberOf c owner m = .ok other) : other = method :=
    Except.ok.inj (hother.symm.trans hasked.member)
  cases h with
  | unobserved hmember hout =>
    cases hsame hmember
    rcases hout with hout | hout
    · rw [hasked.accepted] at hout
      cases hout
    · have hcode := hasked.code
      rw [hout] at hcode
      cases hcode
  | bare hasked' htype' hnone =>
    cases hsame hasked'.member
    rw [htype] at htype'
    cases htype'
    exact absurd hnone hparams
  | malformed hasked' htype' =>
    cases hsame hasked'.member
    rw [htype] at htype'
    cases htype'
  | instrument hasked' htype' hparams' =>
    cases hsame hasked'.member
    rw [htype] at htype'
    cases htype'
    rfl

/-- A method with more parameters than the prefix has room for is refused. -/
theorem Treats.refused_of_many {ts : List Treatment} (h : Treats r c w ts) {m : ClassMember}
    {method : Member} {type : MethodType} (hm : c.methods[i]? = some m)
    (hasked : Asked r c w.owner m method)
    (htype : Descriptor.readMethod method.descriptor = .ok type)
    (hmany : greatestCode < 4 * type.params.length) :
    i ∉ w.methods.instrumented ∧ ∃ e, (method.name ++ method.descriptor, e) ∈ w.methods.failures ∧
      Refusal (plan w.owner i m method type) m e := by
  have hparams : type.params ≠ [] := by
    rintro hnil
    simp [hnil] at hmany
  constructor
  · intro hi
    obtain ⟨method', type', before, after, code, refs, hbefore, -, hasked', htype', hp⟩ :=
      h.exists_prefixed hi
    cases Option.some.inj (hbefore.symm.trans hm)
    cases Except.ok.inj (hasked'.member.symm.trans hasked.member)
    cases Except.ok.inj (htype'.symm.trans htype)
    have hlength : 4 * type.params.length + 6 ≤ greatestCode := hp.length_params_le
    omega
  · rw [← h.before, List.getElem?_map, Option.map_eq_some_iff] at hm
    obtain ⟨t, ht, rfl⟩ := hm
    have hmeets := h.meets i t ht
    cases hmeets with
    | passed hdecides => cases hdecides.eq_instrument hasked htype hparams
    | malformed hdecides => cases hdecides.eq_instrument hasked htype hparams
    | @refused m p e hdecides he =>
      cases hdecides.eq_instrument hasked htype hparams
      refine ⟨e, ?_, he⟩
      rw [h.failures]
      exact List.mem_append_right _ (List.mem_filterMap.2 ⟨_, List.mem_of_getElem? ht, rfl⟩)
    | @instrumented m after p code refs hdecides hp =>
      cases hdecides.eq_instrument hasked htype hparams
      have hlength : 4 * type.params.length + 6 ≤ greatestCode := hp.length_params_le
      omega

/-! ## A class to try -/

/-- A class `A` with a method `f` of an `int` and a `long`, whose code has one handler, two lines,
two local variables and two frames, and a method `g` without parameters; both are static. -/
def smallClass : Bytes :=
  [202, 254, 186, 190, 0, 0, 0, 52, 0, 13, 1, 0, 1, 65, 7, 0, 1, 1, 0, 1, 102, 1, 0, 5, 40, 73,
    74, 41, 86, 1, 0, 4, 67, 111, 100, 101, 1, 0, 15, 76, 105, 110, 101, 78, 117, 109, 98, 101,
    114, 84, 97, 98, 108, 101, 1, 0, 18, 76, 111, 99, 97, 108, 86, 97, 114, 105, 97, 98, 108, 101,
    84, 97, 98, 108, 101, 1, 0, 13, 83, 116, 97, 99, 107, 77, 97, 112, 84, 97, 98, 108, 101, 1, 0,
    1, 120, 1, 0, 1, 73, 1, 0, 1, 103, 1, 0, 3, 40, 41, 86, 0, 0, 0, 2, 0, 0, 0, 0, 0, 0, 0, 2, 0,
    8, 0, 3, 0, 4, 0, 1, 0, 5, 0, 0, 0, 83, 0, 1, 0, 4, 0, 0, 0, 6, 26, 153, 0, 4, 0, 177, 0, 1, 0,
    0, 0, 4, 0, 4, 0, 0, 0, 3, 0, 6, 0, 0, 0, 10, 0, 2, 0, 0, 0, 1, 0, 5, 0, 2, 0, 7, 0, 0, 0, 22,
    0, 2, 0, 0, 0, 6, 0, 9, 0, 10, 0, 0, 0, 4, 0, 2, 0, 9, 0, 10, 0, 3, 0, 8, 0, 0, 0, 7, 0, 2, 68,
    8, 0, 0, 0, 0, 8, 0, 11, 0, 12, 0, 1, 0, 5, 0, 0, 0, 13, 0, 0, 0, 0, 0, 0, 0, 1, 177, 0, 0, 0,
    0, 0, 0]

/-- Observes everything. -/
def observant : Instrumenter := ⟨fun _ => true, .collector, true⟩

/-- The first method is instrumented, and only that. -/
theorem smallClass_rewrite : ∃ c w before old, ClassFile.read smallClass = .ok c ∧
    observant.rewrite c = .ok w ∧ w.owner = "A" ∧ w.methods.instrumented = [0] ∧
    c.methods[0]? = some before ∧ before.access = .staticBit ∧
    memberOf c w.owner before = .ok ⟨.staticBit, "A", "f", "(IJ)V"⟩ ∧
    before.code? = some old ∧ old.bytes = [0x1A, 0x99, 0, 4, 0, 0xB1] ∧ old.PlacesWithin := by
  have hrun : ((ClassFile.read smallClass).toOption.any fun c =>
      (observant.rewrite c).toOption.any fun w => c.methods[0]?.any fun m =>
        (memberOf c w.owner m).toOption.any fun method => m.code?.any fun code =>
          Decidable.decide (w.owner = "A" ∧ w.methods.instrumented = [0] ∧ m.access = .staticBit ∧
            method = ⟨.staticBit, "A", "f", "(IJ)V"⟩ ∧ code.bytes = [0x1A, 0x99, 0, 4, 0, 0xB1] ∧
            code.PlacesWithin)) = true := by
    decide +kernel
  simp only [Option.any_eq_true, toOption_eq_some, decide_eq_true_eq] at hrun
  obtain ⟨c, hread, w, hw, before, hbefore, method, hmethod, old, hold, howner, hplaces, haccess,
    rfl, hbytes, hwithin⟩ := hrun
  exact ⟨c, w, before, old, hread, hw, howner, hplaces, hbefore, haccess, hmethod, hold, hbytes,
    hwithin⟩

/-! ## Handing over -/

/-- **An instrumented method hands its arguments over.** What has been put in front of its code is a
prefix for its parameters, whose constants mean in the new pool what they should, and no number in
it is cut; a method with too many parameters for that is refused. -/
theorem instrumented_handsOver (hread : ClassFile.read bytes = .ok c) (hw : r.rewrite c = .ok w) :
    (∀ i ∈ w.methods.instrumented, ∃ (before after : ClassMember) (code : Code) (method : Member)
      (type : MethodType) (refs : CaptureRefs),
      c.methods[i]? = some before ∧ w.methods.file.methods[i]? = some after ∧
      before.code? = some code ∧ memberOf c w.owner before = .ok method ∧
      Descriptor.readMethod method.descriptor = .ok type ∧
      refs.Denote ⟨w.owner, method.name ++ method.descriptor⟩ method.descriptor type.params r.target
        w.methods.file.pool ∧
      after.code?.map Code.bytes = some (paddedPrefix (prefixCode type.params
        (before.access.has .staticBit) refs) ++ code.bytes) ∧
      (∀ n : Nat, n ≤ type.params.length → ∀ {α : Type} (s : Activation α),
        Activation.step w.methods.file.pool s (.pushInt n) = .ok (s.push (.int n))) ∧
      Activation.HandsOver w.methods.file.pool r.target w.owner (method.name ++ method.descriptor)
        method.descriptor type.params (before.access.has .staticBit)
        (prefixCode type.params (before.access.has .staticBit) refs)) ∧
    ∀ (i : Nat) (m : ClassMember) (method : Member) (type : MethodType), c.methods[i]? = some m →
      Asked r c w.owner m method → Descriptor.readMethod method.descriptor = .ok type →
      32767 < type.params.length →
      i ∉ w.methods.instrumented ∧ ∃ e, (method.name ++ method.descriptor, e) ∈ w.methods.failures ∧
        (e = .classFile .poolFull ∨ ∃ size, greatestCode < size ∧
          e = .codeTooLarge (method.name ++ method.descriptor) size) := by
  obtain ⟨ts, h⟩ := Treats.of_read hread hw
  constructor
  · intro i hi
    obtain ⟨method, type, before, after, code, refs, hbefore, hafter, hasked, htype, hp⟩ :=
      h.exists_prefixed hi
    have hlength : 4 * type.params.length + 6 ≤ greatestCode := hp.length_params_le
    have hcount : type.params.length ≤ 32767 := by
      unfold greatestCode at hlength
      omega
    refine ⟨before, after, code, method, type, refs, hbefore, hafter, hp.body, hasked.member, htype,
      hp.denote, ?_, fun n hn _ s => Activation.step_pushInt (Nat.le_trans hn hcount),
      Activation.prefixCode_handsOver hp.denote hcount _⟩
    rw [hp.code?_after]
    rfl
  · intro i m method type hm hasked htype hmany
    obtain ⟨hout, e, he, hrefusal⟩ := h.refused_of_many hm hasked htype
      (by unfold greatestCode; omega)
    refine ⟨hout, e, he, ?_⟩
    cases hrefusal with
    | poolFull => exact .inl rfl
    | codeTooLarge _ _ _ hlarge => exact .inr ⟨_, hlarge, rfl⟩

theorem instrumented_handsOver_smallClass : ∃ c w, ClassFile.read smallClass = .ok c ∧
    observant.rewrite c = .ok w ∧ 0 ∈ w.methods.instrumented ∧
    ∃ refs, Activation.HandsOver w.methods.file.pool .collector "A" "f(IJ)V" "(IJ)V"
      [⟨0, .primitive .int⟩, ⟨0, .primitive .long⟩] true
      (prefixCode [⟨0, .primitive .int⟩, ⟨0, .primitive .long⟩] true refs) := by
  obtain ⟨c, w, before, old, hread, hw, howner, hplaces, hbefore, haccess, hmethod, -⟩ :=
    smallClass_rewrite
  have hi : 0 ∈ w.methods.instrumented := by simp [hplaces]
  obtain ⟨before', after, code, method, type, refs, hbefore', -, -, hmethod', htype, -, -, -, h⟩ :=
    (instrumented_handsOver hread hw).1 0 hi
  cases Option.some.inj (hbefore.symm.trans hbefore')
  cases Except.ok.inj (hmethod.symm.trans hmethod')
  cases htype
  rw [howner, haccess] at h
  exact ⟨c, w, hread, hw, hi, refs, h⟩

/-! ## The old code -/

/-- **The old code is read as it was**, behind the instructions of the prefix and up to three that
do nothing, at a place that is moved by their length; and where it cannot be read, neither can the
new code, for the same reason. -/
theorem instrumented_decode (hread : ClassFile.read bytes = .ok c) (hw : r.rewrite c = .ok w)
    (hi : i ∈ w.methods.instrumented) :
    ∃ (before after : ClassMember) (old new : Code) (method : Member) (type : MethodType)
      (refs : CaptureRefs) (front : List Instruction) (k : Nat) (added : Bytes),
      c.methods[i]? = some before ∧ w.methods.file.methods[i]? = some after ∧
      before.code? = some old ∧ after.code? = some new ∧ memberOf c w.owner before = .ok method ∧
      Descriptor.readMethod method.descriptor = .ok type ∧
      refs.Denote ⟨w.owner, method.name ++ method.descriptor⟩ method.descriptor type.params r.target
        w.methods.file.pool ∧
      front = prefixCode type.params (before.access.has .staticBit) refs ∧
      added = encode 0 front ++ List.replicate k 0 ∧ k ≤ 3 ∧ added.length % 4 = 0 ∧
      new.bytes = added ++ old.bytes ∧
      (∀ found, decode old.bytes = .ok found → decode new.bytes = .ok (placed 0 front ++
        placed (encode 0 front).length (List.replicate k .nop) ++
          found.map (movedBy added.length))) ∧
      ∀ e, decode old.bytes = .error e → ∃ pc fault, e = .decode pc fault ∧
        decode new.bytes = .error (.decode (pc + added.length) fault) := by
  obtain ⟨ts, h⟩ := Treats.of_read hread hw
  obtain ⟨method, type, before, after, code, refs, hbefore, hafter, hasked, htype, hp⟩ :=
    h.exists_prefixed hi
  have hshort : (paddedPrefix (prefixCode type.params (before.access.has .staticBit) refs) ++
      code.bytes).length ≤ 0x100000000 := by
    rw [List.length_append]
    exact Nat.le_trans hp.fits (by decide)
  have hdecode := decode_paddedPrefix_append
    (prefixCode_wellFormed type.params (before.access.has .staticBit) refs) hshort
  refine ⟨before, after, code, _, method, type, refs, _, _, _, hbefore, hafter, hp.body,
    hp.code?_after, hasked.member, htype, hp.denote, rfl, rfl, padding_le _,
    length_paddedPrefix_mod _, rfl, fun found hfound => ?_, fun e he => ?_⟩
  · rw [hfound] at hdecode
    exact hdecode
  · obtain ⟨good, bad, read, fault, -, -, -, -, heq⟩ := decode_eq_error_iff.1 he
    rw [he, heq] at hdecode
    exact ⟨_, fault, heq, hdecode⟩

theorem instrumented_decode_smallClass : ∃ c w after new front added,
    ClassFile.read smallClass = .ok c ∧ observant.rewrite c = .ok w ∧ 0 ∈ w.methods.instrumented ∧
    w.methods.file.methods[0]? = some after ∧ after.code? = some new ∧
    new.bytes = added ++ [0x1A, 0x99, 0, 4, 0, 0xB1] ∧
    decode new.bytes = .ok (front ++ [(0 + added.length, .load .int 0),
      (1 + added.length, .other 0x99 [0, 4]), (4 + added.length, .nop),
      (5 + added.length, .other 0xB1 [])]) := by
  obtain ⟨c, w, before, old, hread, hw, -, hplaces, hbefore, -, -, hold, hbytes, -⟩ :=
    smallClass_rewrite
  have hi : 0 ∈ w.methods.instrumented := by simp [hplaces]
  obtain ⟨before', after, old', new, method, type, refs, front, k, added, hbefore', hafter, hold',
    hnew, -, -, -, -, -, -, -, hadded, hdecode, -⟩ := instrumented_decode hread hw hi
  cases Option.some.inj (hbefore.symm.trans hbefore')
  cases Option.some.inj (hold.symm.trans hold')
  rw [hbytes] at hadded hdecode
  exact ⟨c, w, after, new, _, added, hread, hw, hi, hafter, hnew, hadded, hdecode _ rfl⟩

/-! ## The tables -/

/-- **The tables of the code move with it.** If all their places lie within the old code, every one
moves by the length of what has been put in front, which two bytes always hold; variables that live
from the start live in front of the old code, too, and no handler does. -/
theorem instrumented_tables (hread : ClassFile.read bytes = .ok c) (hw : r.rewrite c = .ok w)
    (hi : i ∈ w.methods.instrumented) :
    ∃ (before after : ClassMember) (old new : Code) (added : Bytes),
      c.methods[i]? = some before ∧ w.methods.file.methods[i]? = some after ∧
      before.code? = some old ∧ after.code? = some new ∧ new.bytes = added ++ old.bytes ∧
      0 < added.length ∧ (old.PlacesWithin → old.TablesMovedBy added.length new ∧
        ∀ e ∈ new.handlers, added.length ≤ e.start.toNat) := by
  obtain ⟨ts, h⟩ := Treats.of_read hread hw
  obtain ⟨method, type, before, after, code, refs, hbefore, hafter, -, -, hp⟩ :=
    h.exists_prefixed hi
  have hpos :
      0 < (paddedPrefix (prefixCode type.params (before.access.has .staticBit) refs)).length := by
    have hlength := length_params_add_le_length_paddedPrefix type.params
      (before.access.has .staticBit) refs
    omega
  refine ⟨before, after, code, _, _, hbefore, hafter, hp.body, hp.code?_after, rfl, hpos,
    fun hwithin => ?_⟩
  have hmoved := Code.prepend_tablesMovedBy hwithin hpos hp.fits (UInt16.ofNat (peakOf type.params))
  exact ⟨hmoved, hmoved.le_start⟩

theorem instrumented_tables_smallClass : ∃ c w before after old new added,
    ClassFile.read smallClass = .ok c ∧ observant.rewrite c = .ok w ∧ 0 ∈ w.methods.instrumented ∧
    c.methods[0]? = some before ∧ w.methods.file.methods[0]? = some after ∧
    before.code? = some old ∧
    after.code? = some new ∧ new.bytes = added ++ old.bytes ∧ old.PlacesWithin ∧
    old.TablesMovedBy (List.length added) new := by
  obtain ⟨c, w, before, old, hread, hw, -, hplaces, hbefore, -, -, hold, -, hwithin⟩ :=
    smallClass_rewrite
  have hi : 0 ∈ w.methods.instrumented := by simp [hplaces]
  obtain ⟨before', after, old', new, added, hbefore', hafter, hold', hnew, hadded, -, hmoved⟩ :=
    instrumented_tables hread hw hi
  cases Option.some.inj (hbefore.symm.trans hbefore')
  cases Option.some.inj (hold.symm.trans hold')
  exact ⟨c, w, before, after, old, new, added, hread, hw, hi, hbefore, hafter, hold, hnew, hadded,
    hwithin, (hmoved hwithin).1⟩

end Instrumenter

end ValueCoverage
