import ValueCoverage.Proofs.Capture.Constants
import ValueCoverage.Proofs.Capture.Outcome
import ValueCoverage.Proofs.Capture.Room
import ValueCoverage.Proofs.ClassFile.Growth
import ValueCoverage.Proofs.Text.Utf8

/-!
# Instrumented classes are read back

Whether the class that is written can be read again. Three things decide it, and nothing looks at
any of them: how long the new texts are, how long the bodies of the new code are, and whether an
attribute without a name gets one.
-/

namespace ValueCoverage

/-! ## Attributes that are kept byte for byte -/

section Raw

variable {name : UInt16} {info : Bytes}

/-- Moving the places in an attribute leaves those alone that are kept byte for byte. -/
theorem Attribute.raw_inside_shift_iff {amount : UInt16} {a : Attribute} :
    (Attribute.raw name info).Inside (a.shift amount) ↔ (Attribute.raw name info).Inside a := by
  cases a with
  | code | exceptions | raw => exact Iff.rfl
  | stackMapTable | lineNumberTable | localVariableTable | localVariableTypeTable =>
    constructor <;> intro h <;> cases h

theorem Code.raw_inside_prepend_iff {c : Code} {front : Bytes} {depth : UInt16} :
    (Attribute.raw name info).Inside (c.prepend front depth).toAttribute ↔
      (Attribute.raw name info).Inside c.toAttribute := by
  constructor
  · intro h
    cases h with
    | code hb hinside =>
      obtain ⟨old, hold, rfl⟩ := List.mem_map.1 hb
      exact .code hold (Attribute.raw_inside_shift_iff.1 hinside)
  · intro h
    cases h with
    | code hb hinside =>
      exact .code (List.mem_map_of_mem hb) (Attribute.raw_inside_shift_iff.2 hinside)

/-- The attribute stands in the member, at whatever depth. -/
def ClassMember.Holds (m : ClassMember) (a : Attribute) : Prop :=
  ∃ b ∈ m.attributes, a.Inside b

theorem ClassMember.holds_withCode_iff {m : ClassMember} {old new : Code} {a : Attribute}
    (hcode : m.code? = some old) (h : a.Inside new.toAttribute ↔ a.Inside old.toAttribute) :
    (m.withCode new).Holds a ↔ m.Holds a := by
  obtain ⟨before, after, hattributes, -, hreplaced⟩ := ClassMember.replaceCode_split hcode new
  rw [hattributes] at hreplaced
  simp only [Holds, withCode, hattributes, hreplaced, List.mem_append, List.mem_cons, or_and_right,
    exists_or, exists_eq_left, h]

theorem ClassFile.holds_iff {c : ClassFile} {a : Attribute} : c.Holds a ↔
    (∃ b ∈ c.attributes, a.Inside b) ∨ (∃ m ∈ c.fields, m.Holds a) ∨
      ∃ m ∈ c.methods, m.Holds a := by
  simp only [ClassFile.Holds, attributeLists, ClassMember.Holds, List.map_append, List.mem_cons,
    List.mem_append, List.mem_map, or_and_right, exists_or, exists_eq_left,
    exists_exists_and_eq_and]

end Raw

namespace Instrumenter

open ConstantPool Capture

variable {r : Instrumenter} {c : ClassFile} {w : Rewriting} {ts : List Treatment}

/-! ## Attributes without a name -/

theorem Meets.holds_raw_iff {owner : String} {pool : ConstantPool} {i : Nat} {t : Treatment}
    (h : Meets r c owner pool i t) {name : UInt16} {info : Bytes} :
    t.after.Holds (.raw name info) ↔ t.before.Holds (.raw name info) := by
  cases h with
  | passed | malformed | refused => exact Iff.rfl
  | instrumented _ hp =>
    rw [hp.after]
    exact ClassMember.holds_withCode_iff hp.body Code.raw_inside_prepend_iff

theorem Treats.holds_raw_iff (h : Treats r c w ts) {name : UInt16} {info : Bytes} :
    w.methods.file.Holds (.raw name info) ↔ c.Holds (.raw name info) := by
  have hmethods : (∃ m ∈ ts.map Treatment.after, m.Holds (.raw name info)) ↔
      ∃ m ∈ ts.map Treatment.before, m.Holds (.raw name info) := by
    simp only [List.mem_map, exists_exists_and_eq_and]
    refine exists_congr fun t => and_congr_right fun ht => ?_
    obtain ⟨i, hi⟩ := List.mem_iff_getElem?.1 ht
    exact (h.meets i t hi).holds_raw_iff
  rw [ClassFile.holds_iff, ClassFile.holds_iff, h.file, hmethods, h.before]

/-! ## Room -/

/-- The bodies of the code that something has been put in front of fit their lengths. -/
def CodeFits (w : Rewriting) : Prop :=
  ∀ i ∈ w.methods.instrumented, ∀ m code, w.methods.file.methods[i]? = some m →
    m.code? = some code → code.toAttribute.body.length ≤ Attribute.greatestLength

/-- What may keep an instrumented class from being read again. -/
structure Writable (c : ClassFile) (w : Rewriting) : Prop where
  /-- The texts of the pool fit their lengths. -/
  texts : ∀ text, some (.utf8 text) ∈ w.methods.file.pool.slots.toList →
    text.length ≤ ClassReader.greatestCount
  /-- The new code fits its length. -/
  bodies : CodeFits w
  /-- Attributes that have no name do not get that of a kind. -/
  names : ∀ name info, c.Holds (.raw name info) → c.pool.slots.size ≤ name.toNat →
    ClassReader.titleOf w.methods.file.pool name ∉ Attribute.titles

/-- A method can be written afterwards if it could be before and its new code fits its length. -/
theorem Meets.fits_after {owner : String} {pool old : ConstantPool} {i : Nat} {t : Treatment}
    (h : Meets r c owner pool i t) (hbefore : t.before.Fits old)
    (hbody : ∀ code, t.fate.place? = some i → t.after.code? = some code →
      code.toAttribute.body.length ≤ Attribute.greatestLength) : t.after.Fits old := by
  cases h with
  | passed | malformed | refused => exact hbefore
  | instrumented hdecides hp =>
    cases hdecides with
    | instrument hasked htype hparams =>
      have hold := hbefore.all _ (ClassMember.mem_of_code? hp.body)
      have hfits := Code.fits_prepend hold (hbody _ rfl hp.code?_after)
      rw [hp.after]
      exact hbefore.withCode hp.body hfits

/-- With the old pool, the class can be written as long as the new code fits its length. -/
theorem Treats.fits_members (h : Treats r c w ts) (hc : c.Fits) (hbodies : CodeFits w) :
    ClassFile.Fits { w.methods.file with pool := c.pool } := by
  have hfile : { w.methods.file with pool := c.pool } =
      { c with methods := ts.map Treatment.after } := by rw [h.file]
  have hlength : (ts.map Treatment.after).length = c.methods.length := by simp [← h.before]
  rw [hfile]
  refine ⟨hc.pool, hc.interfaces_le, hc.fields, ⟨?_, fun m hm => ?_⟩, hc.attributes⟩
  · show (ts.map Treatment.after).length ≤ _
    rw [hlength]
    exact hc.methods.length_le
  · obtain ⟨t, ht, rfl⟩ := List.mem_map.1 hm
    obtain ⟨i, hi⟩ := List.mem_iff_getElem?.1 ht
    have hbefore : t.before ∈ c.methods := by
      rw [← h.before]
      exact List.mem_map_of_mem ht
    refine (h.meets i t hi).fits_after (hc.methods.all _ hbefore) fun code hplace hcode => ?_
    have hafter : w.methods.file.methods[i]? = some t.after := by
      rw [h.file]
      simp [hi]
    have hmem : i ∈ w.methods.instrumented := by
      rw [h.instrumented]
      exact List.mem_filterMap.2 ⟨t, ht, hplace⟩
    exact hbodies i hmem t.after code hafter hcode

/-- **The class can be written** just if the texts, the new code and the names are as they should
be; nothing else in it can go wrong. -/
theorem fits_iff_writable (hread : c.Fits) (hpool : c.pool.Sound) (hw : r.rewrite c = .ok w) :
    w.methods.file.Fits ↔ Writable c w := by
  obtain ⟨ts, hts⟩ := rewrite_treats hpool hw
  obtain ⟨hsound, hgrown⟩ := rewrite_pool hpool hw
  have hnarrow (k : Constant) (hk : NeedsIn r c w.owner k) : k.isWide = false := by
    obtain ⟨m, -, method, -, hone⟩ := hk
    exact hone.isWide
  have hnames : (∀ name info, w.methods.file.Holds (.raw name info) →
        c.pool.slots.size ≤ name.toNat →
        ClassReader.titleOf w.methods.file.pool name ∉ Attribute.titles) ↔
      ∀ name info, c.Holds (.raw name info) → c.pool.slots.size ≤ name.toNat →
        ClassReader.titleOf w.methods.file.pool name ∉ Attribute.titles := by
    simp only [hts.holds_raw_iff]
  have hgrows (hmembers : ClassFile.Fits { w.methods.file with pool := c.pool }) :=
    ClassFile.fits_grownBy_iff hmembers hgrown hnarrow hsound.fits
  constructor
  · intro hfits
    have hbodies : CodeFits w := by
      intro i _ m code hm hcode
      have hmethod := hfits.methods.all m (List.mem_of_getElem? hm)
      exact (hmethod.all _ (ClassMember.mem_of_code? hcode)).size
    -- the bodies come first: with them, the class fits the old pool, and only the pool has grown
    obtain ⟨htexts, hall⟩ := (hgrows (hts.fits_members hread hbodies)).1 hfits
    exact ⟨htexts, hbodies, hnames.1 hall⟩
  · intro h
    exact (hgrows (hts.fits_members hread h.bodies)).2 ⟨h.texts, hnames.2 h.names⟩

/-! ## Classes with room -/

/-- The class and the target leave room for what is added: the texts of no observed method are too
long, the class stays far from the greatest length, and the names of its attributes are in its
pool. -/
structure Roomy (r : Instrumenter) (c : ClassFile) (owner : String) : Prop where
  texts : ∀ m ∈ c.methods, ∀ method, Asked r c owner m method →
    ∀ s ∈ CaptureRefs.ownTexts r.target (.method owner method.name method.descriptor)
      method.descriptor, (Text.ModifiedUtf8.encode s).length ≤ ClassReader.greatestCount
  size_le : c.bytes.length + 3 * ClassReader.greatestCount ≤ Attribute.greatestLength
  names : ∀ name info, c.Holds (.raw name info) → name.toNat < c.pool.slots.size

theorem length_sharedTexts_le : ∀ s ∈ CaptureRefs.sharedTexts,
    (Text.ModifiedUtf8.encode s).length ≤ ClassReader.greatestCount := by
  decide +kernel

/-- A class with room can be written, whatever has come of its methods. -/
theorem Roomy.writable (h : Roomy r c w.owner) (hc : c.Fits) (hpool : c.pool.Sound)
    (hw : r.rewrite c = .ok w) : Writable c w where
  texts text htext := by
    rcases (rewrite_pool hpool hw).2.mem htext with hold | ⟨m, hm, method, hasked, s, hs, rfl⟩
    · exact hc.pool.constants _ hold
    · rcases List.mem_append.1 hs with hs | hs
      · exact h.texts m hm method hasked s hs
      · exact length_sharedTexts_le s hs
  bodies i hi m code hm hcode := by
    obtain ⟨ts, hts⟩ := rewrite_treats hpool hw
    obtain ⟨method, type, before, after, old, refs, hbefore, hafter, -, -, hp⟩ :=
      hts.exists_prefixed hi
    cases Option.some.inj (hm.symm.trans hafter)
    cases Option.some.inj (hcode.symm.trans hp.code?_after)
    have hmember := List.mem_of_getElem? hbefore
    have hmem := ClassMember.mem_of_code? hp.body
    have hcount : old.attributes.length ≤ ClassReader.greatestCount := by
      cases (hc.methods.all before hmember).all _ hmem with
      | code _ _ _ attributes_le _ => exact attributes_le
    have hsize := ClassFile.length_body_le hmember hmem
    have hfront := hp.fits
    have hbody := Code.length_body_prepend_le (paddedPrefix (prefixCode type.params
      (before.access.has .staticBit) refs)) (UInt16.ofNat (peakOf type.params)) old
    have hroom := h.size_le
    -- one count for the prefix, two for the attributes of the code, each two bytes longer
    simp only [plan, greatestCode, ClassReader.greatestCount] at *
    omega
  names name info hholds hle := absurd (h.names name info hholds) (Nat.not_lt_of_le hle)

/-- Where the class can be written, the name and the descriptor of no instrumented method are too
long together. -/
theorem Writable.length_le (h : Writable c w) (hts : Treats r c w ts) {i : Nat}
    (hi : i ∈ w.methods.instrumented) {m : ClassMember} {method : Member}
    (hm : c.methods[i]? = some m) (hmember : memberOf c w.owner m = .ok method) :
    (method.name ++ method.descriptor).length ≤ ClassReader.greatestCount := by
  obtain ⟨method', type, before, after, code, refs, hbefore, -, hasked, -, hp⟩ :=
    hts.exists_prefixed hi
  cases Option.some.inj (hm.symm.trans hbefore)
  cases Except.ok.inj (hmember.symm.trans hasked.member)
  obtain ⟨bytes, hbytes, hspells⟩ := exists_text_of_stringAt? hp.denote.member
  exact Nat.le_trans (Text.ModifiedUtf8.length_le_of_decode? hspells) (h.texts bytes hbytes)

/-- An observed method with code and parameters is to be instrumented. -/
theorem Asked.decide_eq {owner : String} {m : ClassMember} {method : Member} {type : MethodType}
    (h : Asked r c owner m method) (htype : Descriptor.readMethod method.descriptor = .ok type)
    (hparams : type.params ≠ []) (i : Nat) :
    r.decide c owner i m = .ok (.instrument (plan owner i m method type)) := by
  have hcode : m.code?.isNone = false := by simpa [← Option.isSome_iff_ne_none] using h.code
  have hempty : type.params.isEmpty = false := by simpa using hparams
  refine bind_eq_ok.2 ⟨method, h.member, ?_⟩
  simp only [h.accepted, hcode, htype, hempty]
  rfl

/-- A method is instrumented if its constants have room in the pool and its prefix in the code. -/
theorem instrumentMethod_of_room (r : Instrumenter) (p : Planned) {m : ClassMember} {code : Code}
    (hpool : c.pool.Sound) (hm : c.methods[p.index]? = some m) (hcode : m.code? = some code)
    (hroom : c.pool.slots.size + (6 * (CaptureRefs.kindsOf p.params).length + 14) ≤ capacity)
    (hsmall : 20 * p.params.length + 27 + code.bytes.length ≤ greatestCode) :
    (r.instrumentMethod p c).1 = .ok () := by
  obtain ⟨pool, -, -, ⟨refs, hrun, hdenote⟩ | hrun⟩ :=
    CaptureRefs.intern_yields p.key p.descriptor p.params r.target c.pool hpool
  · have hpeak := peakDepth_prefixCode hdenote p.isStatic
    have hprefix := length_paddedPrefix_le p.params p.isStatic refs
    have hsize : ¬ greatestCode <
        (paddedPrefix (prefixCode p.params p.isStatic refs)).length + code.bytes.length := by
      omega
    simp only [instrumentMethod, hrun, hpeak, hm, instrumentCode, hcode, gt_iff_lt, if_neg hsize]
  · obtain ⟨refs, hrefs⟩ :=
      (CaptureRefs.intern_adds p.key p.descriptor p.params r.target).result c.pool hroom
    rw [hrun] at hrefs
    cases hrefs

/-! ## A class to try -/

/-- A class `A` with a static method of an `int`, whose name the bytes spell. -/
def classNaming (name : Bytes) : ClassFile where
  minor := 0
  major := 52
  pool := ⟨#[none, some (.utf8 [65]), some (.classRef 1), some (.utf8 [40, 73, 41, 86]),
    some (.utf8 [67, 111, 100, 101]), some (.utf8 name)]⟩
  access := 1
  thisClass := 2
  superClass := 2
  interfaces := []
  fields := []
  methods := [⟨8, 5, 3, [.code 4 0 1 [177] [] []]⟩]
  attributes := []

section Naming

variable {name : Bytes}

theorem classNaming_fits (h : name.length ≤ ClassReader.greatestCount) :
    (classNaming name).Fits where
  pool := by
    refine ⟨⟨_, rfl, .narrow rfl <| .narrow rfl <| .narrow rfl <| .narrow rfl <| .narrow rfl .nil⟩,
      Nat.le_of_ble_eq_true rfl, fun k hk => ?_⟩
    simp only [classNaming, List.mem_cons, List.not_mem_nil, or_false, Option.some.injEq,
      reduceCtorEq, false_or] at hk
    rcases hk with rfl | rfl | rfl | rfl | rfl
    · exact Nat.le_of_ble_eq_true rfl
    · trivial
    · exact Nat.le_of_ble_eq_true rfl
    · exact Nat.le_of_ble_eq_true rfl
    · exact h
  interfaces_le := Nat.zero_le _
  fields := ⟨Nat.zero_le _, by simp [classNaming]⟩
  methods := by
    have hnamed : ClassReader.titleOf (classNaming name).pool 4 = "Code" := by
      rfl
    have hcode : (Attribute.code 4 0 1 [177] [] []).Fits (classNaming name).pool :=
      .code hnamed (by decide) (by decide) (by decide) (by simp)
    have hmethod : (ClassMember.mk 8 5 3 [.code 4 0 1 [177] [] []]).Fits (classNaming name).pool :=
      ⟨by decide, by simpa using hcode⟩
    exact ⟨Nat.le_of_ble_eq_true rfl, by simpa [classNaming] using hmethod⟩
  attributes := ⟨Nat.zero_le _, by simp [classNaming]⟩

/-- The method of the class. -/
def methodNaming (name : Bytes) : Member :=
  ⟨.staticBit, "A", String.ofList (name.map fun b => Char.ofNat b.toNat), "(I)V"⟩

theorem memberOf_classNaming (h : ∀ b ∈ name, b.toNat < 0x80) (m : ClassMember)
    (hm : m ∈ (classNaming name).methods) :
    memberOf (classNaming name) "A" m = .ok (methodNaming name) := by
  have htext : readText name = some (methodNaming name).name := by
    rw [readText, Text.Utf8.decode?_ascii h]
    rfl
  have hname : (classNaming name).pool.getUtf8 5 = .ok (methodNaming name).name :=
    getUtf8_of_get? rfl htext
  simp only [classNaming, List.mem_singleton] at hm
  subst hm
  exact bind_eq_ok.2 ⟨_, hname, bind_eq_ok.2 ⟨"(I)V", rfl, rfl⟩⟩

theorem classNaming_rewrite (h : ∀ b ∈ name, b.toNat < 0x80) :
    ∃ w, observant.rewrite (classNaming name) = .ok w ∧ w.owner = "A" ∧
      w.methods.instrumented = [0] := by
  obtain ⟨m, hm, hcode⟩ : ∃ m, (classNaming name).methods = [m] ∧
      m.code? = some ⟨4, 0, 1, [177], [], []⟩ := ⟨_, rfl, rfl⟩
  obtain ⟨type, htype, hparams⟩ : ∃ type, Descriptor.readMethod "(I)V" = .ok type ∧
      type.params = [⟨0, .primitive .int⟩] := ⟨_, rfl, rfl⟩
  -- the one method is observed, planned, and has room, so the loop takes one step
  have hasked : Asked observant (classNaming name) "A" m (methodNaming name) :=
    ⟨memberOf_classNaming h m (by simp [hm]), rfl, by simp [hcode]⟩
  have hdecide := hasked.decide_eq htype (by simp [hparams]) 0
  have hdecideAll : observant.decideAll (classNaming name) "A" =
      .ok [.instrument (plan "A" 0 m (methodNaming name) type)] := by
    rw [decideAll, hm, List.zipIdx_singleton, List.mapM_cons]
    exact bind_eq_ok.2 ⟨_, hdecide, rfl⟩
  have hrun : (observant.instrumentMethod (plan "A" 0 m (methodNaming name) type)
      (classNaming name)).1 = .ok () := by
    refine instrumentMethod_of_room _ _ ⟨rfl, Nat.le_of_ble_eq_true rfl⟩ ?_ hcode ?_ ?_ <;>
      simp only [plan, hparams]
    · rw [hm]
      rfl
    · exact Nat.le_of_ble_eq_true rfl
    · exact Nat.le_of_ble_eq_true rfl
  refine ⟨_, bind_eq_ok.2 ⟨"A", rfl, bind_eq_ok.2 ⟨[], rfl, bind_eq_ok.2 ⟨_, hdecideAll, rfl⟩⟩⟩,
    rfl, ?_⟩
  show (Progress.step observant ⟨classNaming name, [], [], []⟩
    (plan "A" 0 m (methodNaming name) type)).instrumented = [0]
  unfold Progress.step
  split
  · rfl
  · next hfailed =>
    rw [hfailed] at hrun
    cases hrun

/-- The class is instrumented, and written. -/
theorem classNaming_instrument (h : ∀ b ∈ name, b.toNat < 0x80)
    (hlen : name.length ≤ ClassReader.greatestCount) :
    ∃ w, ClassFile.read (classNaming name).bytes = .ok (classNaming name) ∧
      observant.rewrite (classNaming name) = .ok w ∧ w.owner = "A" ∧
      w.methods.instrumented = [0] ∧
      observant.instrument (classNaming name).bytes = .ok w.outcome ∧
      w.outcome.bytes = some w.methods.file.bytes := by
  obtain ⟨w, hw, howner, hplaces⟩ := classNaming_rewrite h
  have hread := ClassFile.read_bytes (classNaming_fits hlen)
  refine ⟨w, hread, hw, howner, hplaces, instrument_eq_ok.2 ⟨_, w, hread, hw, rfl⟩, ?_⟩
  simp [Rewriting.outcome, hplaces]

end Naming

theorem classNaming_roomy : Roomy observant (classNaming [102]) "A" where
  texts m hm method hasked := by
    have hmember := memberOf_classNaming (List.forall_mem_singleton.2 (by decide)) m hm
    cases Except.ok.inj (hasked.member.symm.trans hmember)
    decide +kernel
  size_le := by decide +kernel
  names name info h := by
    simp only [ClassFile.holds_iff, ClassMember.Holds, classNaming, List.not_mem_nil, false_and,
      exists_false, false_or, List.mem_singleton, exists_eq_left] at h
    cases h with
    | code hb _ => cases hb

/-! ## Reading back -/

/-- **An instrumented class is read back** as it was written just if it can be written, and it
always can be if the old class and the target leave room. -/
theorem instrument_read_iff {bytes out : Bytes} {outcome : ClassOutcome}
    (h : r.instrument bytes = .ok outcome) (hout : outcome.bytes = some out) :
    ∃ c w, ClassFile.read bytes = .ok c ∧ r.rewrite c = .ok w ∧ w.outcome = outcome ∧
      out = w.methods.file.bytes ∧ (ClassFile.read out = .ok w.methods.file ↔ Writable c w) ∧
      (Roomy r c w.owner → ClassFile.read out = .ok w.methods.file) := by
  obtain ⟨c, w, hread, hw, rfl⟩ := instrument_eq_ok.1 h
  have hfits := ClassFile.fits_of_read hread
  have hsound := ClassFile.sound_of_read hread
  have hbytes : out = w.methods.file.bytes := by
    simp only [Rewriting.outcome] at hout
    split at hout
    · cases hout
    · exact (Option.some.inj hout).symm
  have hback : w.methods.file.Fits → ClassFile.read out = .ok w.methods.file := by
    intro hfile
    rw [hbytes]
    exact ClassFile.read_bytes hfile
  have hiff := fits_iff_writable hfits hsound hw
  refine ⟨c, w, hread, hw, rfl, hbytes, ⟨fun hout => hiff.1 (ClassFile.fits_of_read hout),
    fun hwritable => hback (hiff.2 hwritable)⟩, fun hroomy => ?_⟩
  exact hback (hiff.2 (hroomy.writable hfits hsound hw))

theorem instrument_read_iff_classNaming : ∃ w,
    ClassFile.read (classNaming [102]).bytes = .ok (classNaming [102]) ∧
    observant.rewrite (classNaming [102]) = .ok w ∧
    observant.instrument (classNaming [102]).bytes = .ok w.outcome ∧
    w.outcome.bytes = some w.methods.file.bytes ∧ Writable (classNaming [102]) w ∧
    ClassFile.read w.methods.file.bytes = .ok w.methods.file := by
  have hascii : ∀ b ∈ [(102 : UInt8)], b.toNat < 0x80 := List.forall_mem_singleton.2 (by decide)
  obtain ⟨w, hread, hw, howner, -, hrun, hout⟩ := classNaming_instrument hascii (by decide)
  obtain ⟨c, w', hread', hw', -, -, hiff, hroomy⟩ := instrument_read_iff hrun hout
  cases Except.ok.inj (hread.symm.trans hread')
  cases Except.ok.inj (hw.symm.trans hw')
  have hback := hroomy (howner ▸ classNaming_roomy)
  exact ⟨w, hread, hw, hrun, hout, hiff.1 hback, hback⟩

/-- With a name of 65535 letters, the name and the descriptor together are too long for a text, and
what is written is not the class. -/
theorem not_read_classNaming : ∃ w,
    ClassFile.read (classNaming (List.replicate 65535 97)).bytes =
      .ok (classNaming (List.replicate 65535 97)) ∧
    observant.rewrite (classNaming (List.replicate 65535 97)) = .ok w ∧
    observant.instrument (classNaming (List.replicate 65535 97)).bytes = .ok w.outcome ∧
    w.outcome.bytes = some w.methods.file.bytes ∧
    ClassFile.read w.methods.file.bytes ≠ .ok w.methods.file := by
  have hascii : ∀ b ∈ List.replicate 65535 (97 : UInt8), b.toNat < 0x80 := by
    intro b hb
    rw [List.eq_of_mem_replicate hb]
    decide
  have hlen : (List.replicate 65535 (97 : UInt8)).length ≤ ClassReader.greatestCount :=
    Nat.le_of_eq List.length_replicate
  obtain ⟨w, hread, hw, howner, hplaces, hrun, hout⟩ := classNaming_instrument hascii hlen
  refine ⟨w, hread, hw, hrun, hout, fun hback => ?_⟩
  have hsound := ClassFile.sound_of_read hread
  have hwritable := (fits_iff_writable (ClassFile.fits_of_read hread) hsound hw).1
    (ClassFile.fits_of_read hback)
  obtain ⟨ts, hts⟩ := rewrite_treats hsound hw
  have hmember := memberOf_classNaming hascii _ (List.mem_singleton.2 rfl)
  rw [← howner] at hmember
  have hi : 0 ∈ w.methods.instrumented := by simp [hplaces]
  have hle := hwritable.length_le hts hi rfl hmember
  simp only [methodNaming, String.length_append, String.length_ofList, List.length_map,
    List.length_replicate, ClassReader.greatestCount] at hle
  exact absurd hle (by decide)

end Instrumenter

end ValueCoverage
