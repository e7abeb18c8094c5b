import ValueCoverage.Proofs.Steps
import ValueCoverage.Vm.Native

/-!
# What the machine lends is given back

Calls that take a loan give it back before they end, and what is taken within comes to its end
within: loans are scopes, one after the other and one in the other. So the numbers of the loans tell
them apart, and every loan is given back once, after it was made. A call that leaves no loan open
may still leave an exception pending; only calls that are begun without one are considered, as a
pending exception would make every look-up fail, and what it found be lost.
-/

namespace ValueCoverage

/-- What is lent and given back by calls that begin with the first number and end with the
second. -/
inductive Settled : Nat → List LoanEvent → Nat → Prop where
  | nil (n : Nat) : Settled n [] n
  | scope (kind : LoanKind) {n m k : Nat} {inner rest : List LoanEvent}
      (within : Settled (n + 1) inner m) (after : Settled m rest k) :
      Settled n (.lent ⟨kind, n⟩ :: (inner ++ .returned ⟨kind, n⟩ :: rest)) k

/-- Nothing is lent twice, what is lent is given back once and no earlier, and nothing else is given
back. -/
structure Repaid (events : List LoanEvent) : Prop where
  lent_once : ∀ loan, events.count (.lent loan) ≤ 1
  returned : ∀ loan, events.count (.returned loan) = events.count (.lent loan)
  not_before : ∀ n loan,
    (events.take n).count (.returned loan) ≤ (events.take n).count (.lent loan)

namespace Repaid

variable {loan : Loan} {inner rest : List LoanEvent}

theorem count_lent_scope (l : Loan) :
    (LoanEvent.lent loan :: (inner ++ LoanEvent.returned loan :: rest)).count (.lent l) =
      (if loan = l then 1 else 0) + inner.count (.lent l) + rest.count (.lent l) := by
  simp only [List.count_cons, List.count_append, beq_iff_eq, LoanEvent.lent.injEq, reduceCtorEq,
    if_false]
  omega

theorem count_returned_scope (l : Loan) :
    (LoanEvent.lent loan :: (inner ++ LoanEvent.returned loan :: rest)).count (.returned l) =
      (if loan = l then 1 else 0) + inner.count (.returned l) + rest.count (.returned l) := by
  simp only [List.count_cons, List.count_append, beq_iff_eq, LoanEvent.returned.injEq, reduceCtorEq,
    if_false]
  omega

/-- A scope, where its own loan and those within it and after it differ. -/
theorem scope (hinner : Repaid inner) (hrest : Repaid rest)
    (honce : ∀ l, (if loan = l then 1 else 0) + inner.count (.lent l) + rest.count (.lent l) ≤ 1) :
    Repaid (.lent loan :: (inner ++ .returned loan :: rest)) where
  lent_once l := by
    rw [count_lent_scope]
    exact honce l
  returned l := by
    rw [count_lent_scope, count_returned_scope, hinner.returned, hrest.returned]
  not_before i l := by
    cases i with
    | zero => simp
    | succ i =>
      by_cases hloan : loan = l
      · -- its own loan stands in front, and is given back once
        subst hloan
        calc _ ≤ _ := (List.take_sublist (i + 1) _).count_le _
          _ = _ := by rw [count_returned_scope, hinner.returned, hrest.returned]
          _ ≤ 1 := honce _
          _ ≤ _ := by simp
      · have hbefore := hinner.not_before i l
        simp only [List.take_succ_cons, List.take_append, List.count_cons, List.count_append,
          beq_iff_eq, LoanEvent.lent.injEq, hloan, reduceCtorEq, if_false, Nat.add_zero]
        cases hi : i - inner.length with
        | zero => simpa using hbefore
        | succ j =>
          have := hrest.not_before j l
          simp only [List.take_succ_cons, List.count_cons, beq_iff_eq, LoanEvent.returned.injEq,
            hloan, reduceCtorEq, if_false, Nat.add_zero]
          omega

end Repaid

namespace Settled

variable {n m k : Nat} {events later : List LoanEvent}

theorem append (h : Settled n events m) (h' : Settled m later k) :
    Settled n (events ++ later) k := by
  induction h with
  | nil n => exact h'
  | scope kind within _ _ ih =>
    rw [List.cons_append, List.append_assoc, List.cons_append]
    exact .scope kind within (ih h')

theorem le (h : Settled n events m) : n ≤ m := by
  induction h with
  | nil n => exact Nat.le_refl n
  | scope kind _ _ hwithin hafter => omega

/-- The numbers of the loans lie between the two. -/
theorem number_of_mem (h : Settled n events m) {loan : Loan}
    (hloan : .lent loan ∈ events ∨ .returned loan ∈ events) :
    n ≤ loan.number ∧ loan.number < m := by
  induction h with
  | nil n => simp at hloan
  | @scope kind n m k inner rest within after hwithin hafter =>
    have hm := within.le
    have hk := after.le
    have hcases : loan = ⟨kind, n⟩ ∨ (.lent loan ∈ inner ∨ .returned loan ∈ inner) ∨
        (.lent loan ∈ rest ∨ .returned loan ∈ rest) := by
      simp only [List.mem_cons, List.mem_append, LoanEvent.lent.injEq, LoanEvent.returned.injEq,
        reduceCtorEq, false_or] at hloan
      rcases hloan with (h | h | h) | h | h | h <;> simp [h]
    obtain rfl | hinner | hrest := hcases
    · exact ⟨Nat.le_refl n, Nat.lt_of_lt_of_le hm hk⟩
    · have := hwithin hinner
      omega
    · have := hafter hrest
      omega

/-- A loan that lies outside the numbers is not touched. -/
theorem count_eq_zero (h : Settled n events m) (loan : Loan)
    (hloan : loan.number < n ∨ m ≤ loan.number) :
    events.count (.lent loan) = 0 ∧ events.count (.returned loan) = 0 := by
  constructor <;> refine List.count_eq_zero.2 fun hmem => ?_
  · have := h.number_of_mem (.inl hmem)
    omega
  · have := h.number_of_mem (.inr hmem)
    omega

theorem repaid (h : Settled n events m) : Repaid events := by
  induction h with
  | nil n => exact ⟨by simp, by simp, by simp⟩
  | @scope kind n m k inner rest within after hwithin hafter =>
    refine .scope hwithin hafter fun l => ?_
    have hm := within.le
    have := hwithin.lent_once l
    have := hafter.lent_once l
    -- the numbers of the loans within end where those after begin
    by_cases hnumber : l.number < m
    · have := after.count_eq_zero l (.inl hnumber)
      split
      · next hown =>
        subst hown
        have := within.count_eq_zero ⟨kind, n⟩ (.inl (Nat.lt_succ_self n))
        omega
      · omega
    · have := within.count_eq_zero l (.inr (by omega))
      have hown : ¬(⟨kind, n⟩ : Loan) = l := by
        rintro rfl
        exact hnumber hm
      rw [if_neg hown]
      omega

end Settled

/-- Calls that turn the first machine into the second leave no loan open, and the machine fails as
before. -/
structure Machine.Leaves (m n : Machine) : Prop where
  faults : n.faults = m.faults
  loans : ∃ made, n.loans = m.loans ++ made ∧ Settled m.loanCount made n.loanCount

namespace Machine.Leaves

variable {m n k : Machine}

theorem refl (m : Machine) : m.Leaves m := ⟨rfl, [], by simp, .nil _⟩

theorem trans (h : m.Leaves n) (h' : n.Leaves k) : m.Leaves k := by
  obtain ⟨made, hmade, hsettled⟩ := h.loans
  obtain ⟨made', hmade', hsettled'⟩ := h'.loans
  refine ⟨h'.faults.trans h.faults, made ++ made', ?_, hsettled.append hsettled'⟩
  rw [hmade', hmade, List.append_assoc]

/-- What lies between taking a loan and giving it back leaves none open, so nor does the whole. -/
theorem scope {kind : LoanKind} (h : ((lend kind).run m).2.Leaves n) :
    m.Leaves ((giveBack ⟨kind, m.loanCount⟩).run n).2 := by
  obtain ⟨made, hmade, hsettled⟩ := h.loans
  refine ⟨h.faults, _, ?_, .scope kind hsettled (.nil _)⟩
  show n.loans ++ [LoanEvent.returned ⟨kind, m.loanCount⟩] = _
  rw [hmade]
  show m.loans ++ [LoanEvent.lent ⟨kind, m.loanCount⟩] ++ made ++ _ = _
  simp

/-- Only loans and faults matter. -/
theorem of_eq (faults : n.faults = m.faults) (loans : n.loans = m.loans)
    (loanCount : n.loanCount = m.loanCount) : m.Leaves n :=
  ⟨faults, [], by rw [loans, List.append_nil], by rw [loanCount]; exact .nil _⟩

end Machine.Leaves

namespace Native

variable {α β : Type}

/-! ## Calls into the machine -/

/-- Begun without a pending exception, the call gives `v`, which only depends on how the machine
fails; it leaves no loan open, and an exception pending if `raised`. -/
def Yields (x : VmM α) (v : Faults → α) (raised : Bool) : Prop :=
  ∀ m : Machine, m.pending = false →
    (x.run m).1 = v m.faults ∧ m.Leaves (x.run m).2 ∧ (x.run m).2.pending = raised

theorem Yields.pure (a : α) : Yields (pure a) (fun _ => a) false :=
  fun m hm => ⟨rfl, .refl m, hm⟩

theorem Yields.bind {x : VmM α} {f : α → VmM β} {v : Faults → α} {w : α → Faults → β}
    {raised : Bool} (hx : Yields x v false) (hf : ∀ a, Yields (f a) (w a) raised) :
    Yields (x >>= f) (fun faults => w (v faults) faults) raised := by
  intro m hm
  obtain ⟨hresult, hleaves, hpending⟩ := hx m hm
  obtain ⟨hresult', hleaves', hpending'⟩ := hf (x.run m).1 _ hpending
  refine ⟨?_, hleaves.trans hleaves', hpending'⟩
  show ((f (x.run m).1).run (x.run m).2).1 = w (v m.faults) m.faults
  rw [hresult', hleaves.faults, hresult]

theorem Yields.log (call : VmCall) : Yields (Machine.log call) (fun _ => ⟨⟩) false :=
  fun _ hm => ⟨rfl, .of_eq rfl rfl rfl, hm⟩

theorem Yields.raise : Yields Machine.raise (fun _ => ⟨⟩) true :=
  fun _ _ => ⟨rfl, .of_eq rfl rfl rfl, rfl⟩

/-- The characters of a string, if it has some that can be had. -/
def readable (o : JavaObject) : Option String := o.chars?.map Text.Utf8.decodeLenient

theorem yields_getString (o : JavaObject) : Yields (getString o) (fun _ => readable o) false := by
  intro m hm
  unfold getString readable
  cases hnull : o.isNull with
  | true =>
    cases o with
    | null => exact ⟨rfl, .refl m, hm⟩
    | _ => exact absurd hnull Bool.false_ne_true
  | false =>
    cases o.chars? with
    | none => exact ⟨rfl, .of_eq rfl rfl rfl, rfl⟩
    | some chars => exact ⟨rfl, .scope (.refl _), hm⟩

/-- What is done with a reference to an object is done before the reference is deleted. -/
theorem Yields.withRef (o : JavaObject) {x : VmM α} {v : Faults → α} (hx : Yields x v false)
    (f : α → β) :
    Yields (do
      let ref ← refTo o
      let a ← x
      dropRef ref
      return f a) (fun faults => f (v faults)) false := by
  intro m hm
  unfold refTo
  cases o.isNull with
  | true =>
    obtain ⟨hresult, hleaves⟩ := hx m hm
    exact ⟨congrArg f hresult, hleaves⟩
  | false =>
    obtain ⟨hresult, hleaves, hpending⟩ := hx ((Machine.lend .localRef).run m).2 hm
    exact ⟨congrArg f hresult, hleaves.scope, hpending⟩

/-! ## Calls that can fail -/

/-- Begun without a pending exception, the call gives `v` if that is something and fails otherwise;
it leaves no loan open and no exception pending. -/
def Reports (x : Call α) (v : Faults → Option α) : Prop :=
  ∀ m : Machine, m.pending = false →
    (x.run.run m).1.toOption = v m.faults ∧ m.Leaves (x.run.run m).2 ∧
      (x.run.run m).2.pending = false

theorem Reports.pure (a : α) : Reports (pure a) (fun _ => some a) :=
  fun m hm => ⟨rfl, .refl m, hm⟩

theorem Reports.throw (e : CoverageError) : Reports (throw e : Call α) (fun _ => none) :=
  fun m hm => ⟨rfl, .refl m, hm⟩

theorem Reports.bind {x : Call α} {f : α → Call β} {v : Faults → Option α}
    {w : α → Faults → Option β} (hx : Reports x v) (hf : ∀ a, Reports (f a) (w a)) :
    Reports (x >>= f) (fun faults => (v faults).bind fun a => w a faults) := by
  intro m hm
  obtain ⟨hresult, hleaves, hpending⟩ := hx m hm
  have hrun := run_bind_fallible x f m
  simp only [← hresult]
  cases hfirst : (x.run.run m).1 with
  | error e =>
    rw [hfirst] at hrun
    rw [hrun]
    exact ⟨rfl, hleaves, hpending⟩
  | ok a =>
    obtain ⟨hresult', hleaves', hpending'⟩ := hf a _ hpending
    rw [hfirst] at hrun
    rw [hrun]
    refine ⟨?_, hleaves.trans hleaves', hpending'⟩
    rw [hresult', hleaves.faults]
    rfl

theorem Reports.forM {f : α → Call PUnit} {v : α → Faults → Option PUnit}
    (hf : ∀ a, Reports (f a) (v a)) (as : List α) :
    Reports (as.forM f)
      (fun faults => if as.all fun a => (v a faults).isSome then some ⟨⟩ else none) := by
  induction as with
  | nil => exact .pure _
  | cons a as ih =>
    have hboth : ∀ faults, (if (a :: as).all fun a => (v a faults).isSome then some PUnit.unit
        else none) = (v a faults).bind fun _ =>
          if as.all fun a => (v a faults).isSome then some PUnit.unit else none := by
      intro faults
      rw [List.all_cons]
      cases v a faults <;> rfl
    intro m hm
    obtain ⟨hresult, hrest⟩ := Reports.bind (hf a) (fun _ => ih) m hm
    exact ⟨hresult.trans (hboth m.faults).symm, hrest⟩

/-- A name that can be passed to the machine. -/
def Passes (name : String) : Prop := name.toList.contains '\x00' = false

theorem passName_of_passes {name : String} (h : Passes name) (call : String) :
    passName call name = pure () := by
  unfold passName
  rw [h]
  rfl

theorem run_lift (x : VmM α) (m : Machine) :
    (liftM x : Call α).run.run m = (.ok (x.run m).1, (x.run m).2) := rfl

theorem run_takeException {m : Machine} (hm : m.pending = false) :
    takeException.run m = (false, m) := by
  cases m
  cases hm
  rfl

/-- A look-up that is begun without a pending exception ends without one, and well if there is
something to be had. -/
theorem run_finish (call : String) (outcome : Lookup) (found : VmM α) {m : Machine}
    (hm : m.pending = false) (hfound : (found.run m).2.pending = false) :
    (finish call (handOut outcome found)).run.run m =
      if outcome = .found then (.ok (found.run m).1, (found.run m).2)
      else (.error (.native call), m) := by
  have hcleared : takeException.run (Machine.raise.run m).2 = (true, m) := by
    cases m
    cases hm
    rfl
  unfold finish
  simp only [run_bind_fallible, run_lift]
  cases outcome with
  | found =>
    have hrun : (handOut .found found).run m = (some (found.run m).1, (found.run m).2) := rfl
    rw [hrun, run_takeException hfound]
    rfl
  | missing =>
    have hrun : (handOut .missing found).run m = (none, m) := rfl
    rw [hrun, run_takeException hm]
    rfl
  | thrown =>
    have hrun : (handOut .thrown found).run m = (none, (Machine.raise.run m).2) := rfl
    rw [hrun, hcleared]
    rfl

theorem run_getMethodId {method : MethodId} (hname : Passes method.name)
    (hdescriptor : Passes method.descriptor) {m : Machine} (hm : m.pending = false) :
    (getMethodId method).run.run m =
      (if m.faults.getMethodId method = .found then .ok method else .error (.native "GetMethodID"),
        ((Machine.log (.getMethodId method)).run m).2) := by
  have hrun : (getMethodId method).run.run m =
      (finish "GetMethodID" (handOut (m.faults.getMethodId method) (pure method))).run.run
        ((Machine.log (.getMethodId method)).run m).2 := by
    unfold getMethodId
    rw [passName_of_passes hname, passName_of_passes hdescriptor]
    rfl
  rw [hrun, run_finish (m := ((Machine.log (.getMethodId method)).run m).2) _ _ (pure method) hm hm]
  split <;> rfl

theorem reports_getMethodId {method : MethodId} (hname : Passes method.name)
    (hdescriptor : Passes method.descriptor) :
    Reports (getMethodId method)
      (fun faults => if faults.getMethodId method = .found then some method else none) := by
  intro m hm
  rw [run_getMethodId hname hdescriptor hm]
  refine ⟨?_, .of_eq rfl rfl rfl, hm⟩
  dsimp only
  split <;> rfl

theorem run_findClass {name : String} (hname : Passes name) {m : Machine} (hm : m.pending = false) :
    (findClass name).run.run m =
      if m.faults.findClass name = .found then
        (.ok ⟨.localRef, m.loanCount⟩,
          ((Machine.lend .localRef).run ((Machine.log (.findClass name)).run m).2).2)
      else (.error (.native "FindClass"), ((Machine.log (.findClass name)).run m).2) := by
  have hrun : (findClass name).run.run m =
      (finish "FindClass" (handOut (m.faults.findClass name) (Machine.lend .localRef))).run.run
        ((Machine.log (.findClass name)).run m).2 := by
    unfold findClass
    rw [passName_of_passes hname]
    rfl
  rw [hrun, run_finish (m := ((Machine.log (.findClass name)).run m).2) _ _
    (Machine.lend .localRef) hm hm]
  rfl

/-- The reference to a class is deleted after what is done with the class. -/
theorem Reports.withClass {name : String} (hname : Passes name) {x : Call α}
    {v : Faults → Option α} (hx : Reports x v) :
    Reports (withClass name x)
      (fun faults => if faults.findClass name = .found then v faults else none) := by
  intro m hm
  have hlogged : m.Leaves ((Machine.log (.findClass name)).run m).2 := .of_eq rfl rfl rfl
  unfold Native.withClass
  rw [run_bind_fallible, run_findClass hname hm]
  by_cases hfound : m.faults.findClass name = .found
  · simp only [hfound, if_true]
    obtain ⟨hresult, hleaves, hpending⟩ :=
      hx ((Machine.lend .localRef).run ((Machine.log (.findClass name)).run m).2).2 hm
    exact ⟨hresult, hlogged.trans hleaves.scope, hpending⟩
  · simp only [hfound, if_false]
    exact ⟨rfl, hlogged, hm⟩

end Native

end ValueCoverage
