import ValueCoverage.Proofs.Capture.Instrumented

/-!
# The account of a class

What instrumenting a class tells of it, and what it leaves as it was. Every method that is wanted
turns up once, as a declaration or as a failure, and no other does; the class differs only in the
code of methods that have been declared and in constants at the end of its pool.
-/

namespace ValueCoverage

namespace Instrumenter

variable {r : Instrumenter} {c : ClassFile} {owner : String} {i : Nat}

/-! ## Fields -/

/-- The declaration of a field. -/
def fieldDeclaration (owner : String) (field : Member) : Declaration :=
  ⟨.field owner field.name field.descriptor, field.descriptor⟩

/-- The declarations are those of the observed fields in their order, if fields are declared at
all. -/
structure FieldsDeclared (r : Instrumenter) (c : ClassFile) (owner : String)
    (declared : List Declaration) : Prop where
  off : r.fields = false → declared = []
  on : r.fields = true → ∃ members, c.fields.mapM (memberOf c owner) = .ok members ∧
    declared = (members.filter r.accepts).map (fieldDeclaration owner)

theorem mapM_declareField {fields : List ClassMember} {found : List (Option Declaration)}
    (h : fields.mapM (r.declareField c owner) = .ok found) :
    ∃ members, fields.mapM (memberOf c owner) = .ok members ∧
      found.filterMap id = (members.filter r.accepts).map (fieldDeclaration owner) := by
  induction fields generalizing found with
  | nil =>
    cases h
    exact ⟨[], rfl, rfl⟩
  | cons m rest ih =>
    rw [List.mapM_cons] at h
    obtain ⟨d, hd, h⟩ := bind_eq_ok.1 h
    obtain ⟨ds, hds, h⟩ := bind_eq_ok.1 h
    cases h
    obtain ⟨field, hfield, hd⟩ := bind_eq_ok.1 hd
    obtain ⟨members, hmembers, hfound⟩ := ih hds
    refine ⟨field :: members, ?_, ?_⟩
    · rw [List.mapM_cons]
      exact bind_eq_ok.2 ⟨field, hfield, bind_eq_ok.2 ⟨members, hmembers, rfl⟩⟩
    · cases hd
      cases haccepted : r.accepts field <;> simpa [haccepted, fieldDeclaration] using hfound

theorem declareFields_declared {declared : List Declaration}
    (h : r.declareFields c owner = .ok declared) : FieldsDeclared r c owner declared := by
  unfold declareFields at h
  split at h
  · next hon =>
    obtain ⟨found, hfound, h⟩ := bind_eq_ok.1 h
    cases h
    exact ⟨fun hoff => by simp [hon] at hoff, fun _ => mapM_declareField hfound⟩
  · next hoff =>
    cases h
    exact ⟨fun _ => rfl, fun hon => absurd hon hoff⟩

/-! ## Methods -/

/-- The method is observed and has code, and its descriptor cannot be read or has parameters. -/
structure Wanted (r : Instrumenter) (c : ClassFile) (owner : String) (m : ClassMember)
    (method : Member) : Prop where
  asked : Asked r c owner m method
  params : ∀ type, Descriptor.readMethod method.descriptor = .ok type → type.params ≠ []

/-- What has come of a method, told by what is wanted: a method that is not instrumented is as it
was, and one that is differs in its first code only. -/
inductive Settled (r : Instrumenter) (c : ClassFile) (owner : String) (i : Nat) (m : ClassMember) :
    ClassMember → Fate → Prop where
  | passed (h : ∀ method, ¬ Wanted r c owner m method) : Settled r c owner i m m .passed
  | malformed {method : Member} {e : DescriptorError} (h : Wanted r c owner m method)
    (htype : Descriptor.readMethod method.descriptor = .error e) :
    Settled r c owner i m m (.malformed (method.name ++ method.descriptor) (.descriptor e))
  | poolFull {method : Member} {type : MethodType} (h : Wanted r c owner m method)
    (htype : Descriptor.readMethod method.descriptor = .ok type) :
    Settled r c owner i m m (.refused (plan owner i m method type) (.classFile .poolFull))
  | codeTooLarge {method : Member} {type : MethodType} {size : Nat} (h : Wanted r c owner m method)
    (htype : Descriptor.readMethod method.descriptor = .ok type) (hsize : greatestCode < size) :
    Settled r c owner i m m (.refused (plan owner i m method type)
      (.codeTooLarge (method.name ++ method.descriptor) size))
  | instrumented {method : Member} {type : MethodType} {old new : Code}
    {before after : List Attribute}
    (h : Wanted r c owner m method) (htype : Descriptor.readMethod method.descriptor = .ok type)
    (hattributes : m.attributes = before ++ old.toAttribute :: after)
    (hfirst : before.findSome? Code.ofAttribute? = none) :
    Settled r c owner i m { m with attributes := before ++ new.toAttribute :: after }
      (.instrumented (plan owner i m method type))

theorem Asked.not_wanted {m : ClassMember} {method : Member} {type : MethodType}
    (hasked : Asked r c owner m method)
    (htype : Descriptor.readMethod method.descriptor = .ok type) (hparams : type.params = [])
    (other : Member) : ¬ Wanted r c owner m other := by
  intro h
  cases Except.ok.inj (hasked.member.symm.trans h.asked.member)
  exact h.params type htype hparams

theorem Asked.wanted {m : ClassMember} {method : Member} {type : MethodType}
    (hasked : Asked r c owner m method)
    (htype : Descriptor.readMethod method.descriptor = .ok type) (hparams : type.params ≠ []) :
    Wanted r c owner m method :=
  ⟨hasked, fun type' htype' => by cases Except.ok.inj (htype.symm.trans htype'); exact hparams⟩

theorem Meets.settled {pool : ConstantPool} {t : Treatment} (h : Meets r c owner pool i t) :
    Settled r c owner i t.before t.after t.fate := by
  cases h with
  | passed h =>
    cases h with
    | @unobserved method hmember hout =>
      -- whatever member it is asked about is the one that was not observed
      refine .passed fun other h => ?_
      cases Except.ok.inj (hmember.symm.trans h.asked.member)
      rcases hout with hout | hout
      · exact absurd h.asked.accepted (by simp [hout])
      · exact absurd h.asked.code (by simp [hout])
    | bare hasked htype hparams => exact .passed (hasked.not_wanted htype hparams)
  | malformed h =>
    cases h with
    | malformed hasked htype =>
      exact .malformed ⟨hasked, fun type htype' => by rw [htype] at htype'; cases htype'⟩ htype
  | refused h he =>
    cases h with
    | instrument hasked htype hparams =>
      cases he with
      | poolFull => exact .poolFull (hasked.wanted htype hparams) htype
      | codeTooLarge refs hcode hsize hlarge =>
        exact .codeTooLarge (hasked.wanted htype hparams) htype hlarge
  | instrumented h hp =>
    cases h with
    | instrument hasked htype hparams =>
      obtain ⟨before, after, hattributes, hfirst, hreplaced⟩ :=
        ClassMember.replaceCode_split hp.body _
      rw [hp.after, ClassMember.withCode, hreplaced]
      exact .instrumented (hasked.wanted htype hparams) htype hattributes hfirst

/-! ## The whole class -/

theorem length_place_eq_length_declaration (fates : List Fate) :
    (fates.filterMap Fate.place?).length = (fates.filterMap Fate.declaration?).length := by
  induction fates with
  | nil => rfl
  | cons fate rest ih =>
    cases fate <;> simp [Fate.place?, Fate.declaration?, List.filterMap_cons, ih]

theorem instrument_eq_ok {bytes : Bytes} {outcome : ClassOutcome} :
    r.instrument bytes = .ok outcome ↔
    ∃ c w, ClassFile.read bytes = .ok c ∧ r.rewrite c = .ok w ∧ w.outcome = outcome := by
  unfold instrument
  rw [mapError_eq_ok, bind_eq_ok]
  constructor
  · rintro ⟨c, hread, hrun⟩
    obtain ⟨w, hw, hout⟩ := bind_eq_ok.1 hrun
    exact ⟨c, w, hread, hw, Except.ok.inj hout⟩
  · rintro ⟨c, w, hread, hw, rfl⟩
    exact ⟨c, hread, bind_eq_ok.2 ⟨w, hw, rfl⟩⟩

/-- **The account of a class**: every method has one fate, the declarations and the failures tell of
the fates in the order of the file, the sink hears just the declarations, and the class that is
written is the class that was read but for the code of instrumented methods and for constants at the
end of the pool. -/
theorem instrument_accounts {bytes : Bytes} {outcome : ClassOutcome}
    (h : r.instrument bytes = .ok outcome) :
    ∃ (c file : ClassFile) (fields : List Declaration) (fates : List Fate),
      ClassFile.read bytes = .ok c ∧ c.name.map Text.pointed = .ok outcome.owner ∧
      outcome.bytes = (if outcome.instrumented = 0 then none else some file.bytes) ∧
      FieldsDeclared r c outcome.owner fields ∧
      outcome.declarations = fields ++ fates.filterMap Fate.declaration? ∧
      outcome.failures = fates.filterMap Fate.malformed? ++ fates.filterMap Fate.refused? ∧
      outcome.instrumented = (fates.filterMap Fate.declaration?).length ∧
      (∀ {σ : Type} (declare : σ → Declaration → σ) (sink : σ),
        r.instrumentInto declare sink bytes =
        (.ok outcome, outcome.declarations.foldl declare sink)) ∧
      fates.length = c.methods.length ∧ file.methods.length = c.methods.length ∧
      (∀ i m m' fate, c.methods[i]? = some m → file.methods[i]? = some m' → fates[i]? = some fate →
        Settled r c outcome.owner i m m' fate) ∧
      file = { c with pool := file.pool, methods := file.methods } ∧ c.pool.Keeps file.pool := by
  obtain ⟨c, w, hread, hw, rfl⟩ := instrument_eq_ok.1 h
  obtain ⟨ts, hts⟩ := Treats.of_read hread hw
  have hplaces : w.methods.instrumented.length =
      ((ts.map Treatment.fate).filterMap Fate.declaration?).length := by
    rw [← length_place_eq_length_declaration, hts.instrumented, List.filterMap_map]
    rfl
  refine ⟨c, w.methods.file, w.fields, ts.map Treatment.fate, hread, hts.owner, ?_,
    declareFields_declared hts.fields, ?_, ?_, hplaces, fun declare sink => ?_, ?_, ?_, ?_, ?_,
    hts.grown.keeps⟩
  · simp [Rewriting.outcome]
  · show w.fields ++ w.methods.declared = _
    rw [hts.declared, List.filterMap_map]
    rfl
  · show w.methods.failures = _
    rw [hts.failures, List.filterMap_map, List.filterMap_map]
    rfl
  · simp only [instrumentInto, h]
  · simp [← hts.before]
  · rw [hts.file]
    simp [← hts.before]
  · intro i m m' fate hm hm' hfate
    rw [List.getElem?_map, Option.map_eq_some_iff] at hfate
    obtain ⟨t, ht, rfl⟩ := hfate
    rw [← hts.before, List.getElem?_map, ht] at hm
    rw [hts.file, List.getElem?_map, ht] at hm'
    cases hm
    cases hm'
    exact (hts.meets i t ht).settled
  · rw [hts.file]

theorem instrument_accounts_smallClass : ∃ outcome, observant.instrument smallClass = .ok outcome ∧
    outcome.instrumented = 1 ∧
    ∃ (c file : ClassFile) (fates : List Fate), ClassFile.read smallClass = .ok c ∧
      outcome.bytes = some file.bytes ∧ fates.length = c.methods.length ∧
      (fates.filterMap Fate.declaration?).length = 1 ∧ c.pool.Keeps file.pool := by
  obtain ⟨c, w, -, -, hread, hw, -, hplaces, -⟩ := smallClass_rewrite
  have hrun : observant.instrument smallClass = .ok w.outcome :=
    instrument_eq_ok.2 ⟨c, w, hread, hw, rfl⟩
  have hone : w.outcome.instrumented = 1 := by simp [Rewriting.outcome, hplaces]
  obtain ⟨c', file, fields, fates, hread', -, hbytes, -, -, -, hcount, -, hlength, -, -, -,
    hkeeps⟩ :=
    instrument_accounts hrun
  rw [hone] at hbytes hcount
  exact ⟨_, hrun, hone, c', file, fates, hread', hbytes, hlength, hcount.symm, hkeeps⟩

end Instrumenter

end ValueCoverage
