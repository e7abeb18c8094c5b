import ValueCoverage.Proofs.Capture.Prefix
import ValueCoverage.Proofs.Capture.References
import ValueCoverage.Proofs.ClassFile.Reader

/-!
# What comes of the methods of a class

Every method of a class that is instrumented meets one fate, and its place decides which of the
lists of the outcome tells of it. Instrumenting one method touches no other, and a method that is
refused leaves nothing behind but constants at the end of the pool.
-/

namespace ValueCoverage

theorem ClassMember.replaceCode_split {code : Code} {attributes : List Attribute}
    (h : attributes.findSome? Code.ofAttribute? = some code) (new : Code) :
    ∃ before after, attributes = before ++ code.toAttribute :: after ∧
      before.findSome? Code.ofAttribute? = none ∧
      replaceCode new attributes = before ++ new.toAttribute :: after := by
  induction attributes with
  | nil => cases h
  | cons a rest ih =>
    cases hcode : Code.ofAttribute? a with
    | some found =>
      have hfound : found = code := by simpa [List.findSome?_cons, hcode] using h
      subst hfound
      have ha : a = found.toAttribute := by
        cases a <;> simp [Code.ofAttribute?] at hcode
        subst hcode
        rfl
      exact ⟨[], rest, by simp [ha], rfl, by simp [replaceCode, hcode]⟩
    | none =>
      have hrest : rest.findSome? Code.ofAttribute? = some code := by
        simpa [List.findSome?_cons, hcode] using h
      obtain ⟨before, after, hsplit, hnone, hreplaced⟩ := ih hrest
      refine ⟨a :: before, after, by simp [hsplit], by simp [hcode, hnone], ?_⟩
      simp [replaceCode, hcode, hreplaced]

theorem ClassMember.mem_of_code? {m : ClassMember} {code : Code} (h : m.code? = some code) :
    code.toAttribute ∈ m.attributes := by
  obtain ⟨before, after, hattributes, -, -⟩ := replaceCode_split h code
  simp [hattributes]

theorem ClassMember.code?_withCode {m : ClassMember} {code : Code} (h : m.code? = some code)
    (new : Code) : (m.withCode new).code? = some new := by
  obtain ⟨before, after, -, hnone, hreplaced⟩ := replaceCode_split h new
  unfold code? withCode
  simp only [hreplaced, List.findSome?_append, hnone, Option.none_or, List.findSome?_cons]
  rfl

namespace Instrumenter

open Capture

/-! ## Decisions -/

/-- The method is observed and has code. -/
structure Asked (r : Instrumenter) (c : ClassFile) (owner : String) (m : ClassMember)
    (method : Member) : Prop where
  member : memberOf c owner m = .ok method
  accepted : r.accepts method = true
  code : m.code?.isSome

/-- What is planned for a method at a place of the class. -/
def plan (owner : String) (index : Nat) (m : ClassMember) (method : Member) (type : MethodType) :
    Planned :=
  ⟨index, .method owner method.name method.descriptor, method.descriptor, type.params,
    m.access.has .staticBit⟩

/-- What a decision says of a method at a place of the class. -/
inductive Decides (r : Instrumenter) (c : ClassFile) (owner : String) (index : Nat)
    (m : ClassMember) : Decision → Prop where
  | unobserved {method : Member} (hmember : memberOf c owner m = .ok method)
      (h : r.accepts method = false ∨ m.code? = none) : Decides r c owner index m .skip
  | bare {method : Member} {type : MethodType} (hasked : Asked r c owner m method)
      (htype : Descriptor.readMethod method.descriptor = .ok type) (hparams : type.params = []) :
      Decides r c owner index m .skip
  | malformed {method : Member} {e : DescriptorError} (hasked : Asked r c owner m method)
      (htype : Descriptor.readMethod method.descriptor = .error e) :
      Decides r c owner index m (.fail (method.name ++ method.descriptor) (.descriptor e))
  | instrument {method : Member} {type : MethodType} (hasked : Asked r c owner m method)
      (htype : Descriptor.readMethod method.descriptor = .ok type) (hparams : type.params ≠ []) :
      Decides r c owner index m (.instrument (plan owner index m method type))

theorem decide_decides {r : Instrumenter} {c : ClassFile} {owner : String} {index : Nat}
    {m : ClassMember} {d : Decision} (h : r.decide c owner index m = .ok d) :
    Decides r c owner index m d := by
  obtain ⟨method, hmember, h⟩ := bind_eq_ok.1 h
  simp only at h
  split at h
  · next hskip =>
    cases h
    refine .unobserved hmember ?_
    simpa using hskip
  · next hkept =>
    simp only [Bool.or_eq_true, Bool.not_eq_eq_eq_not, Bool.not_true, Option.isNone_iff_eq_none,
      not_or, Bool.not_eq_false] at hkept
    have hasked : Asked r c owner m method :=
      ⟨hmember, hkept.1, Option.isSome_iff_ne_none.2 hkept.2⟩
    split at h
    · next e htype =>
      cases h
      exact .malformed hasked htype
    · next type htype =>
      split at h
      · next hempty =>
        cases h
        exact .bare hasked htype (List.isEmpty_iff.1 hempty)
      · next hparams =>
        cases h
        exact .instrument hasked htype (fun hnil => hparams (List.isEmpty_iff.2 hnil))

/-! ## One method -/

/-- A method with a prefix in front of its code. -/
structure Prefixed (target : Target) (p : Planned) (pool : ConstantPool)
    (before after : ClassMember) (code : Code) (refs : CaptureRefs) : Prop where
  body : before.code? = some code
  denote : refs.Denote p.key p.descriptor p.params target pool
  fits : (paddedPrefix (prefixCode p.params p.isStatic refs)).length + code.bytes.length ≤
    greatestCode
  after : after = before.withCode (code.prepend (paddedPrefix (prefixCode p.params p.isStatic refs))
    (UInt16.ofNat (peakOf p.params)))

section Prefixed

variable {target : Target} {p : Planned} {pool later : ConstantPool} {before after : ClassMember}
  {code : Code} {refs : CaptureRefs}

theorem Prefixed.grown (h : Prefixed target p pool before after code refs)
    (hgrown : pool.Grown later) : Prefixed target p later before after code refs :=
  ⟨h.body, h.denote.grown hgrown, h.fits, h.after⟩

theorem Prefixed.code?_after (h : Prefixed target p pool before after code refs) :
    after.code? = some (code.prepend (paddedPrefix (prefixCode p.params p.isStatic refs))
      (UInt16.ofNat (peakOf p.params))) := by
  rw [h.after]
  exact ClassMember.code?_withCode h.body _

theorem Prefixed.length_params_le (h : Prefixed target p pool before after code refs) :
    4 * p.params.length + 6 ≤ greatestCode := by
  have hlength := length_params_add_le_length_paddedPrefix p.params p.isStatic refs
  have hfits := h.fits
  omega

end Prefixed

/-- Why a method is refused: the pool is full, or its code would be too long. -/
inductive Refusal (p : Planned) (before : ClassMember) : CoverageError → Prop where
  | poolFull : Refusal p before (.classFile .poolFull)
  | codeTooLarge {code : Code} (refs : CaptureRefs) {size : Nat} (hcode : before.code? = some code)
      (hsize : (paddedPrefix (prefixCode p.params p.isStatic refs)).length + code.bytes.length =
        size)
      (hlarge : greatestCode < size) : Refusal p before (.codeTooLarge p.key.member size)

/-- A method is instrumented or refused, and in either case nothing else changes but that the pool
may have grown. -/
theorem instrumentMethod_cases (r : Instrumenter) (p : Planned) {c : ClassFile}
    (hpool : c.pool.Sound)
    {m : ClassMember} (hm : c.methods[p.index]? = some m) (hcode : m.code?.isSome) :
    ∃ pool, c.pool.Grown pool ∧ pool.Sound ∧
      ((∃ after code refs, Prefixed r.target p pool m after code refs ∧
          r.instrumentMethod p c =
            (.ok (), { c with pool, methods := c.methods.set p.index after })) ∨
        ∃ e, Refusal p m e ∧ r.instrumentMethod p c = (.error e, { c with pool })) := by
  obtain ⟨code, hcode⟩ := Option.isSome_iff_exists.1 hcode
  obtain ⟨pool, hgrown, hsound, ⟨refs, hrun, hdenote⟩ | hrun⟩ :=
    CaptureRefs.intern_yields p.key p.descriptor p.params r.target c.pool hpool
  · refine ⟨pool, hgrown, hsound, ?_⟩
    have hpeak := peakDepth_prefixCode hdenote p.isStatic
    by_cases hsize : greatestCode <
        (paddedPrefix (prefixCode p.params p.isStatic refs)).length + code.bytes.length
    · refine .inr ⟨_, .codeTooLarge refs hcode rfl hsize, ?_⟩
      simp only [instrumentMethod, hrun, hpeak, hm, instrumentCode, hcode, gt_iff_lt, if_pos hsize]
    · -- the depth is always known, so nothing else can go wrong
      refine .inl ⟨_, code, refs, ⟨hcode, hdenote, by omega, rfl⟩, ?_⟩
      simp only [instrumentMethod, hrun, hpeak, hm, instrumentCode, hcode, gt_iff_lt, if_neg hsize]
  · exact ⟨pool, hgrown, hsound, .inr ⟨_, .poolFull, by simp only [instrumentMethod, hrun]⟩⟩

/-! ## Fates -/

/-- What comes of a method. -/
inductive Fate where
  /-- It is not observed, or has no code or no parameters. -/
  | passed
  /-- It is observed, but its descriptor cannot be read. -/
  | malformed (member : String) (error : CoverageError)
  /-- What it needs has no room. -/
  | refused (planned : Planned) (error : CoverageError)
  | instrumented (planned : Planned)

namespace Fate

/-- The method declaration that tells of the method. -/
def declaration? : Fate → Option Declaration
  | .instrumented p => some ⟨p.key, p.descriptor⟩
  | _ => none

/-- The failure that was known beforehand. -/
def malformed? : Fate → Option (String × CoverageError)
  | .malformed member e => some (member, e)
  | _ => none

/-- The failure that was met on the way. -/
def refused? : Fate → Option (String × CoverageError)
  | .refused p e => some (p.key.member, e)
  | _ => none

/-- The place of an instrumented method. -/
def place? : Fate → Option Nat
  | .instrumented p => some p.index
  | _ => none

end Fate

/-- A method before and after, and what has come of it. -/
structure Treatment where
  before : ClassMember
  after : ClassMember
  fate : Fate

/-- The treatment is one that a method may get at a place of the class, with the pool in the end. -/
inductive Meets (r : Instrumenter) (c : ClassFile) (owner : String) (pool : ConstantPool)
    (index : Nat) : Treatment → Prop where
  | passed {m : ClassMember} (h : Decides r c owner index m .skip) :
      Meets r c owner pool index ⟨m, m, .passed⟩
  | malformed {m : ClassMember} {member : String} {e : CoverageError}
      (h : Decides r c owner index m (.fail member e)) :
      Meets r c owner pool index ⟨m, m, .malformed member e⟩
  | refused {m : ClassMember} {p : Planned} {e : CoverageError}
      (h : Decides r c owner index m (.instrument p)) (he : Refusal p m e) :
      Meets r c owner pool index ⟨m, m, .refused p e⟩
  | instrumented {m after : ClassMember} {p : Planned} {code : Code} {refs : CaptureRefs}
      (h : Decides r c owner index m (.instrument p))
      (hp : Prefixed r.target p pool m after code refs) :
      Meets r c owner pool index ⟨m, after, .instrumented p⟩

theorem Meets.grown {r : Instrumenter} {c : ClassFile} {owner : String} {pool later : ConstantPool}
    {index : Nat} {t : Treatment} (h : Meets r c owner pool index t) (hgrown : pool.Grown later) :
    Meets r c owner later index t := by
  cases h with
  | passed h => exact .passed h
  | malformed h => exact .malformed h
  | refused h he => exact .refused h he
  | instrumented h hp => exact .instrumented h (hp.grown hgrown)

/-! ## All methods -/

section Loop

variable {r : Instrumenter} {c : ClassFile} {owner : String} {s s' : Progress}
  {done rest : List ClassMember}
  {m : ClassMember} {ts : List Treatment}

/-- The progress once more methods have been treated; those behind them are still to come. -/
structure Reaches (s : Progress) (done : List ClassMember) (ts : List Treatment)
    (rest : List ClassMember) (s' : Progress) : Prop where
  file : s'.file =
    { s.file with pool := s'.file.pool, methods := done ++ ts.map Treatment.after ++ rest }
  grown : s.file.pool.Grown s'.file.pool
  sound : s'.file.pool.Sound
  declared : s'.declared = s.declared ++ ts.filterMap fun t => t.fate.declaration?
  failures : s'.failures = s.failures ++ ts.filterMap fun t => t.fate.refused?
  instrumented : s'.instrumented = s.instrumented ++ ts.filterMap fun t => t.fate.place?

/-- A method that is not picked stays, and so does the progress. -/
theorem Reaches.stay {fate : Fate} (hpool : s.file.pool.Sound)
    (hmethods : s.file.methods = done ++ m :: rest)
    (hdeclaration : fate.declaration? = none) (hrefused : fate.refused? = none)
    (hplace : fate.place? = none) : Reaches s done [⟨m, m, fate⟩] rest s where
  file := by simp [← hmethods]
  grown := .refl _
  sound := hpool
  declared := by simp [hdeclaration]
  failures := by simp [hrefused]
  instrumented := by simp [hplace]

/-- One decision treats one method. -/
theorem decision_reaches (hpool : s.file.pool.Sound) (hmethods : s.file.methods = done ++ m :: rest)
    {d : Decision} (h : Decides r c owner done.length m d) :
    ∃ t, t.before = m ∧ t.fate.malformed? = d.failure? ∧
      Reaches s done [t] rest (d.planned?.toList.foldl (Progress.step r) s) ∧
      Meets r c owner (d.planned?.toList.foldl (Progress.step r) s).file.pool done.length t := by
  cases h with
  | unobserved hmember hout =>
    exact ⟨_, rfl, rfl, .stay hpool hmethods rfl rfl rfl, .passed (.unobserved hmember hout)⟩
  | bare hasked htype hparams =>
    exact ⟨_, rfl, rfl, .stay hpool hmethods rfl rfl rfl, .passed (.bare hasked htype hparams)⟩
  | malformed hasked htype =>
    exact ⟨_, rfl, rfl, .stay hpool hmethods rfl rfl rfl, .malformed (.malformed hasked htype)⟩
  | @instrument method type hasked htype hparams =>
    have hm : s.file.methods[(plan owner done.length m method type).index]? = some m := by
      simp [plan, hmethods]
    obtain ⟨pool, hgrown, hsound, ⟨after, code, refs, hprefixed, hrun⟩ | ⟨e, he, hrun⟩⟩ :=
      instrumentMethod_cases r (plan owner done.length m method type) hpool hm hasked.code
    · have hset : s.file.methods.set done.length after = done ++ [after] ++ rest := by
        simp [hmethods, List.set_append_right]
      have hstep : Progress.step r s (plan owner done.length m method type) =
          { s with
            file := { s.file with pool, methods := s.file.methods.set done.length after }
            declared := s.declared ++
              [⟨.method owner method.name method.descriptor, method.descriptor⟩]
            instrumented := s.instrumented ++ [done.length] } := by
        simp only [Progress.step, hrun]
        rfl
      refine ⟨⟨m, after, .instrumented (plan owner done.length m method type)⟩, rfl, rfl, ?_, ?_⟩
      · simp only [Decision.planned?, Option.toList_some, List.foldl_cons, List.foldl_nil, hstep,
          hset]
        exact ⟨rfl, hgrown, hsound, rfl, by simp [Fate.refused?], rfl⟩
      · simp only [Decision.planned?, Option.toList_some, List.foldl_cons, List.foldl_nil, hstep]
        exact .instrumented (.instrument hasked htype hparams) hprefixed
    · have hstep : Progress.step r s (plan owner done.length m method type) =
          { s with
            file := { s.file with pool }
            failures := s.failures ++ [(method.name ++ method.descriptor, e)] } := by
        simp only [Progress.step, hrun]
        rfl
      refine ⟨⟨m, m, .refused (plan owner done.length m method type) e⟩, rfl, rfl, ?_, ?_⟩
      · simp only [Decision.planned?, Option.toList_some, List.foldl_cons, List.foldl_nil, hstep]
        exact ⟨by simp [← hmethods], hgrown, hsound, by simp [Fate.declaration?], rfl,
          by simp [Fate.place?]⟩
      · simp only [Decision.planned?, Option.toList_some, List.foldl_cons, List.foldl_nil, hstep]
        exact .refused (.instrument hasked htype hparams) he

theorem Reaches.cons {t : Treatment} {s'' : Progress} (h : Reaches s done [t] rest s')
    (h' : Reaches s' (done ++ [t.after]) ts [] s'') : Reaches s done (t :: ts) [] s'' where
  file := by rw [h'.file, h.file]; simp
  grown := h.grown.trans h'.grown
  sound := h'.sound
  declared := by rw [h'.declared, h.declared, List.append_assoc, ← List.filterMap_append]; rfl
  failures := by rw [h'.failures, h.failures, List.append_assoc, ← List.filterMap_append]; rfl
  instrumented := by
    rw [h'.instrumented, h.instrumented, List.append_assoc, ← List.filterMap_append]
    rfl

/-- The decisions are carried out one after the other, and every method is treated once. -/
theorem decisions_reach {ms : List ClassMember} {ds : List Decision} (hpool : s.file.pool.Sound)
    (hmethods : s.file.methods = done ++ ms)
    (h : (ms.zipIdx done.length).mapM (fun m => r.decide c owner m.2 m.1) = .ok ds) :
    ∃ ts, ts.map Treatment.before = ms ∧
      (ts.filterMap fun t => t.fate.malformed?) = ds.filterMap Decision.failure? ∧
      Reaches s done ts [] ((ds.filterMap Decision.planned?).foldl (Progress.step r) s) ∧
      ∀ k t, ts[k]? = some t → Meets r c owner
        ((ds.filterMap Decision.planned?).foldl (Progress.step r) s).file.pool
        (done.length + k) t := by
  induction ms generalizing s done ds with
  | nil =>
    cases h
    refine ⟨[], rfl, rfl, ⟨by simp [← hmethods], .refl _, hpool, ?_, ?_, ?_⟩, by simp⟩ <;> simp
  | cons m ms ih =>
    rw [List.zipIdx_cons, List.mapM_cons] at h
    obtain ⟨d, hd, h⟩ := bind_eq_ok.1 h
    obtain ⟨ds', hds, h⟩ := bind_eq_ok.1 h
    cases h
    obtain ⟨t, rfl, hfailure, hreach, hmeets⟩ := decision_reaches hpool hmethods (decide_decides hd)
    -- the methods that are left still stand behind those that have been treated
    have hnext : (d.planned?.toList.foldl (Progress.step r) s).file.methods =
        (done ++ [t.after]) ++ ms := by
      rw [hreach.file]
      simp
    obtain ⟨ts, rfl, hfailures, hrest, hall⟩ := ih hreach.sound hnext (by simpa using hds)
    have hfold : (d :: ds').filterMap Decision.planned? =
        d.planned?.toList ++ ds'.filterMap Decision.planned? := by
      cases hplanned : d.planned? <;> simp [hplanned]
    rw [hfold, List.foldl_append]
    refine ⟨t :: ts, rfl, ?_, hreach.cons hrest, fun k u hu => ?_⟩
    · simp [List.filterMap_cons, hfailure, hfailures]
    · cases k with
      | zero =>
        -- constants that are added for later methods leave the first as it is
        cases hu
        exact hmeets.grown hrest.grown
      | succ k =>
        have := hall k u hu
        simpa [Nat.add_assoc, Nat.add_comm 1] using this

end Loop

/-! ## The class -/

section Class

variable {r : Instrumenter} {c : ClassFile} {w : Rewriting} {ts : List Treatment}

/-- The rewriting treats the methods of the class, each once, and the lists that it keeps tell of
them in their order. -/
structure Treats (r : Instrumenter) (c : ClassFile) (w : Rewriting)
    (ts : List Treatment) : Prop where
  owner : c.name.map Text.pointed = .ok w.owner
  fields : r.declareFields c w.owner = .ok w.fields
  before : ts.map Treatment.before = c.methods
  file : w.methods.file = { c with pool := w.methods.file.pool, methods := ts.map Treatment.after }
  grown : c.pool.Grown w.methods.file.pool
  declared : w.methods.declared = ts.filterMap fun t => t.fate.declaration?
  failures : w.methods.failures =
    (ts.filterMap fun t => t.fate.malformed?) ++ ts.filterMap fun t => t.fate.refused?
  instrumented : w.methods.instrumented = ts.filterMap fun t => t.fate.place?
  meets : ∀ i t, ts[i]? = some t → Meets r c w.owner w.methods.file.pool i t

theorem rewrite_treats (hpool : c.pool.Sound) (h : r.rewrite c = .ok w) :
    ∃ ts, Treats r c w ts := by
  obtain ⟨name, hname, h⟩ := bind_eq_ok.1 h
  obtain ⟨fields, hfields, h⟩ := bind_eq_ok.1 h
  obtain ⟨ds, hds, h⟩ := bind_eq_ok.1 h
  cases h
  have hstart : c.methods = [] ++ c.methods := rfl
  obtain ⟨ts, hbefore, hmalformed, hreach, hmeets⟩ := decisions_reach
    (s := ⟨c, [], ds.filterMap Decision.failure?, []⟩) hpool hstart hds
  refine ⟨ts, ?_⟩
  exact {
    owner := by rw [hname]; rfl
    fields := hfields
    before := hbefore
    file := by simpa [instrumentAll] using hreach.file
    grown := hreach.grown
    declared := by simpa [instrumentAll] using hreach.declared
    failures := by rw [hmalformed]; exact hreach.failures
    instrumented := by simpa [instrumentAll] using hreach.instrumented
    meets := by simpa [instrumentAll] using hmeets }

theorem Treats.of_read {bytes : Bytes} (hread : ClassFile.read bytes = .ok c)
    (h : r.rewrite c = .ok w) : ∃ ts, Treats r c w ts :=
  rewrite_treats (ClassFile.sound_of_read hread) h

/-- Where the outcome counts a method as instrumented, a prefix has been put in front of its
code. -/
theorem Treats.exists_prefixed (h : Treats r c w ts) {i : Nat} (hi : i ∈ w.methods.instrumented) :
    ∃ method type before after code refs, c.methods[i]? = some before ∧
      w.methods.file.methods[i]? = some after ∧ Asked r c w.owner before method ∧
      Descriptor.readMethod method.descriptor = .ok type ∧
      Prefixed r.target (plan w.owner i before method type) w.methods.file.pool
        before after code refs := by
  rw [h.instrumented, List.mem_filterMap] at hi
  obtain ⟨t, ht, hplace⟩ := hi
  obtain ⟨k, hk⟩ := List.mem_iff_getElem?.1 ht
  have hmeets := h.meets k t hk
  have hbefore : c.methods[k]? = some t.before := by rw [← h.before, List.getElem?_map, hk]; rfl
  have hafter : w.methods.file.methods[k]? = some t.after := by
    rw [h.file]
    simp [hk]
  cases hmeets with
  | passed _ => cases hplace
  | malformed _ => cases hplace
  | refused _ _ => cases hplace
  | @instrumented before after p code refs hdecides hprefixed =>
    cases hdecides with
    | @instrument method type hasked htype hparams =>
      cases hplace
      exact ⟨method, type, before, after, code, refs, hbefore, hafter, hasked, htype, hprefixed⟩

end Class

end Instrumenter

end ValueCoverage
