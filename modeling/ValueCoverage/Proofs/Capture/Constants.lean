import ValueCoverage.Proofs.Capture.Rewriting
import ValueCoverage.Proofs.ConstantPool.Added

/-!
# The constants that captures add

Instrumenting a method adds constants to the pool and does nothing else to it, whether or not the
method can be instrumented in the end. So the pool of an instrumented class is the old one with the
texts of its observed methods behind it, and what refers to them.
-/

namespace ValueCoverage

/-! ## One capture -/

namespace CaptureRefs

open ConstantPool ConstantPool.Interning

/-- The texts that captures of different methods share. -/
def sharedTexts : List String :=
  objectClass :: Target.descriptor :: "valueOf" ::
    Primitive.all.flatMap fun kind => [kind.boxClass, kind.valueOfDescriptor]

/-- The texts that the capture of a method needs besides the shared ones. -/
def ownTexts (target : Target) (key : MemberKey) (descriptor : String) : List String :=
  [key.owner, key.member, descriptor, target.owner, target.method]

theorem internValueOf_adds (kinds : List Primitive) :
    Adds (internValueOf kinds) (6 * kinds.length) (OneOf sharedTexts) := by
  induction kinds with
  | nil => exact .pure _
  | cons kind rest ih =>
    have hall : kind ∈ Primitive.all := by cases kind <;> decide
    have hkind {s : String} (hs : s ∈ [kind.boxClass, kind.valueOfDescriptor]) :
        s ∈ sharedTexts := by
      simp only [sharedTexts, List.mem_cons, List.mem_flatMap]
      exact .inr (.inr (.inr ⟨kind, hall, by simpa using hs⟩))
    have hone : Adds (internMethodref kind.boxClass "valueOf" kind.valueOfDescriptor) 6
        (OneOf sharedTexts) :=
      internMethodref_adds (hkind (by simp)) (by simp [sharedTexts]) (hkind (by simp))
    refine (hone.bind fun index => ih.bind fun found => .pure _).mono ?_ fun _ h => h
    rw [List.length_cons]
    omega

/-- A capture adds its own texts and the shared ones, and what refers to them. -/
theorem intern_adds (key : MemberKey) (descriptor : String) (params : List FieldType)
    (target : Target) :
    Adds (intern key descriptor params target) (6 * (kindsOf params).length + 14)
      (OneOf (ownTexts target key descriptor ++ sharedTexts)) := by
  have hvalueOf : Adds (internValueOf (kindsOf params)) (6 * (kindsOf params).length)
      (OneOf (ownTexts target key descriptor ++ sharedTexts)) :=
    (internValueOf_adds _).mono (Nat.le_refl _) fun _ =>
      OneOf.mono fun s hs => List.mem_append_right _ hs
  refine (hvalueOf.bind fun valueOf => (internString_adds ?_).bind fun owner =>
    (internString_adds ?_).bind fun member => (internString_adds ?_).bind fun signature =>
    (internClass_adds ?_).bind fun elementClass =>
    (internMethodref_adds ?_ ?_ ?_).bind fun record => .pure _).mono (Nat.le_refl _) fun _ h => h
  all_goals simp [ownTexts, sharedTexts]

end CaptureRefs

namespace Instrumenter

open ConstantPool

variable {r : Instrumenter} {c : ClassFile} {w : Rewriting}

/-! ## All captures of a class -/

/-- The constant is one that the capture of a method adds. -/
def Needs (r : Instrumenter) (p : Planned) : Constant → Prop :=
  OneOf (CaptureRefs.ownTexts r.target p.key p.descriptor ++ CaptureRefs.sharedTexts)

/-- Whatever comes of the method, the pool is the one that interning leaves. -/
theorem pool_instrumentMethod (r : Instrumenter) (p : Planned) (c : ClassFile) :
    (r.instrumentMethod p c).2.pool =
      ((CaptureRefs.intern p.key p.descriptor p.params r.target).on c.pool).2 := by
  unfold instrumentMethod
  split
  · next hrun => rw [hrun]
  · next hrun =>
    rw [hrun]
    simp only
    split
    · rfl
    · rfl
    · split <;> rfl

theorem pool_step (r : Instrumenter) (s : Progress) (p : Planned) :
    (Progress.step r s p).file.pool =
      ((CaptureRefs.intern p.key p.descriptor p.params r.target).on s.file.pool).2 := by
  rw [← pool_instrumentMethod]
  unfold Progress.step
  split <;> next hrun => rw [hrun]

theorem step_pool {s : Progress} (hpool : s.file.pool.Sound) (p : Planned) :
    (Progress.step r s p).file.pool.Sound ∧
      s.file.pool.GrownBy (Needs r p) (Progress.step r s p).file.pool := by
  rw [pool_step]
  refine ⟨?_, (CaptureRefs.intern_adds p.key p.descriptor p.params r.target).grownBy _⟩
  obtain ⟨q, -, hsound, ⟨refs, hrun, -⟩ | hrun⟩ :=
    CaptureRefs.intern_yields p.key p.descriptor p.params r.target s.file.pool hpool
  · rwa [hrun]
  · rwa [hrun]

theorem steps_pool (r : Instrumenter) (planned : List Planned) {s : Progress}
    (hpool : s.file.pool.Sound) :
    (planned.foldl (Progress.step r) s).file.pool.Sound ∧
      s.file.pool.GrownBy (fun k => ∃ p ∈ planned, Needs r p k)
        (planned.foldl (Progress.step r) s).file.pool := by
  induction planned generalizing s with
  | nil => exact ⟨hpool, .refl _⟩
  | cons p planned ih =>
    obtain ⟨hsound, hfirst⟩ := step_pool hpool p
    obtain ⟨hall, hrest⟩ := ih hsound
    refine ⟨hall, (hfirst.mono fun k hk => ⟨p, by simp, hk⟩).trans (hrest.mono ?_)⟩
    rintro k ⟨p', hp', hk⟩
    exact ⟨p', List.mem_cons_of_mem _ hp', hk⟩

/-- A method that is planned is one that is observed and has code. -/
theorem asked_of_planned {owner : String} {ds : List Decision} (h : r.decideAll c owner = .ok ds)
    {p : Planned} (hp : p ∈ ds.filterMap Decision.planned?) :
    ∃ i m method type, m ∈ c.methods ∧ Asked r c owner m method ∧
      p = plan owner i m method type := by
  obtain ⟨d, hd, hplanned⟩ := List.mem_filterMap.1 hp
  obtain ⟨⟨m, i⟩, hm, hdecide⟩ := exists_of_mem_mapM h hd
  have hmem : m ∈ c.methods := (List.mem_zipIdx' hm).2 ▸ List.getElem_mem _
  cases decide_decides hdecide with
  | instrument hasked htype hparams =>
    cases hplanned
    exact ⟨i, m, _, _, hmem, hasked, rfl⟩
  | unobserved | bare | malformed => cases hplanned

/-- The constant is one that the capture of an observed method of the class adds. -/
def NeedsIn (r : Instrumenter) (c : ClassFile) (owner : String) (k : Constant) : Prop :=
  ∃ m ∈ c.methods, ∃ method, Asked r c owner m method ∧
    OneOf (CaptureRefs.ownTexts r.target (.method owner method.name method.descriptor)
      method.descriptor ++ CaptureRefs.sharedTexts) k

theorem rewrite_pool (hpool : c.pool.Sound) (hw : r.rewrite c = .ok w) :
    w.methods.file.pool.Sound ∧ c.pool.GrownBy (NeedsIn r c w.owner) w.methods.file.pool := by
  obtain ⟨name, -, h⟩ := bind_eq_ok.1 hw
  obtain ⟨fields, -, h⟩ := bind_eq_ok.1 h
  obtain ⟨ds, hds, h⟩ := bind_eq_ok.1 h
  cases h
  have hstart : (Progress.mk c [] (ds.filterMap Decision.failure?) []).file.pool.Sound := hpool
  obtain ⟨hsound, hgrown⟩ := steps_pool r (ds.filterMap Decision.planned?) hstart
  refine ⟨hsound, hgrown.mono ?_⟩
  rintro k ⟨p, hp, hk⟩
  obtain ⟨i, m, method, type, hm, hasked, rfl⟩ := asked_of_planned hds hp
  exact ⟨m, hm, method, hasked, hk⟩

end Instrumenter

end ValueCoverage
