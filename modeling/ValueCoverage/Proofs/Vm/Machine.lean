import ValueCoverage.Vm.Native
import ValueCoverage.Vm.Tool

/-!
# What calls leave of the machine

The faults of the machine, the identities that it gives to fields and the number of fields that it
has handed out. Only the call that hands out the fields of a class changes any of them; all other
calls are steady.
-/

namespace ValueCoverage

namespace Machine

variable {ε α β : Type}

/-- The two machines fail alike and have handed out the same fields. -/
structure Alike (m n : Machine) : Prop where
  faults : n.faults = m.faults
  fieldId : n.fieldId = m.fieldId
  fieldCount : n.fieldCount = m.fieldCount

theorem Alike.refl (m : Machine) : m.Alike m := ⟨rfl, rfl, rfl⟩

theorem Alike.trans {m n k : Machine} (h : m.Alike n) (h' : n.Alike k) : m.Alike k :=
  ⟨h'.faults.trans h.faults, h'.fieldId.trans h.fieldId, h'.fieldCount.trans h.fieldCount⟩

/-- The call hands out no fields. -/
def Steady (x : VmM α) : Prop := ∀ m : Machine, m.Alike (x.run m).2

theorem Steady.pure (a : α) : Steady (pure a) := fun m => .refl m

theorem Steady.bind {x : VmM α} {f : α → VmM β} (hx : Steady x) (hf : ∀ a, Steady (f a)) :
    Steady (x >>= f) := by
  intro m
  exact (hx m).trans (hf (x.run m).1 (x.run m).2)

theorem Steady.get : Steady get := fun m => .refl m

theorem Steady.log (call : VmCall) : Steady (log call) := fun _ => ⟨rfl, rfl, rfl⟩

theorem Steady.raise : Steady raise := fun _ => ⟨rfl, rfl, rfl⟩

theorem Steady.lend (kind : LoanKind) : Steady (lend kind) := fun _ => ⟨rfl, rfl, rfl⟩

theorem Steady.giveBack (loan : Loan) : Steady (giveBack loan) := fun _ => ⟨rfl, rfl, rfl⟩

theorem Steady.newBlock : Steady newBlock := fun _ => ⟨rfl, rfl, rfl⟩

theorem Steady.freeBlock (block : Nat) : Steady (freeBlock block) := fun _ => ⟨rfl, rfl, rfl⟩

theorem Steady.takeException : Steady Native.takeException := fun _ => ⟨rfl, rfl, rfl⟩

theorem Steady.ite {c : Prop} [Decidable c] {x y : VmM α} (hx : Steady x) (hy : Steady y) :
    Steady (if c then x else y) := by
  split
  · exact hx
  · exact hy

/-! ## Calls that can fail -/

/-- The call hands out no fields, whether it fails or not. -/
def SteadyCall (x : ExceptT ε VmM α) : Prop := Steady x.run

theorem SteadyCall.pure (a : α) : SteadyCall (pure a : ExceptT ε VmM α) := fun m => .refl m

theorem SteadyCall.throw (e : ε) : SteadyCall (throw e : ExceptT ε VmM α) := fun m => .refl m

theorem SteadyCall.bind {x : ExceptT ε VmM α} {f : α → ExceptT ε VmM β} (hx : SteadyCall x)
    (hf : ∀ a, SteadyCall (f a)) : SteadyCall (x >>= f) := by
  show Steady (x.run >>= ExceptT.bindCont f)
  refine Steady.bind hx ?_
  intro result
  cases result with
  | ok a => exact hf a
  | error e => exact Steady.pure _

theorem SteadyCall.lift {x : VmM α} (hx : Steady x) : SteadyCall (liftM x : ExceptT ε VmM α) :=
  Steady.bind hx fun a => Steady.pure (Except.ok a)

theorem SteadyCall.ite {c : Prop} [Decidable c] {x y : ExceptT ε VmM α} (hx : SteadyCall x)
    (hy : SteadyCall y) : SteadyCall (if c then x else y) := by
  split
  · exact hx
  · exact hy

theorem SteadyCall.forM {f : α → ExceptT ε VmM PUnit} (hf : ∀ a, SteadyCall (f a)) (as : List α) :
    SteadyCall (as.forM f) := by
  induction as with
  | nil => exact .pure _
  | cons a as ih => exact .bind (hf a) fun _ => ih

end Machine

namespace Native

open Machine

theorem steady_passName (call name : String) : SteadyCall (passName call name) :=
  .ite (.throw _) (.pure _)

theorem steady_handOut {α : Type} (outcome : Lookup) {found : VmM α} (h : Steady found) :
    Steady (handOut outcome found) := by
  cases outcome with
  | found => exact .bind h fun _ => .pure _
  | missing => exact .pure _
  | thrown => exact .bind .raise fun _ => .pure _

theorem steady_finish {α : Type} (call : String) {result : VmM (Option α)} (h : Steady result) :
    SteadyCall (finish call result) := by
  refine .bind (.lift h) fun _ => .bind (.lift .takeException) fun _ => ?_
  split
  · exact .pure _
  · exact .throw _

theorem steady_findClass (name : String) : SteadyCall (findClass name) :=
  .bind (steady_passName _ _) fun _ => .bind (.lift (.log _)) fun _ =>
    .bind (.lift .get) fun _ => steady_finish _ (steady_handOut _ (.lend _))

theorem steady_getMethodId (method : MethodId) : SteadyCall (getMethodId method) :=
  .bind (steady_passName _ _) fun _ => .bind (steady_passName _ _) fun _ =>
    .bind (.lift (.log _)) fun _ => .bind (.lift .get) fun _ =>
      steady_finish _ (steady_handOut _ (.pure _))

theorem steady_withClass {α : Type} (name : String) {x : Call α} (hx : SteadyCall x) :
    SteadyCall (withClass name x) :=
  .bind (steady_findClass name) fun _ =>
    Steady.bind hx fun _ => Steady.bind (.giveBack _) fun _ => .pure _

theorem steady_getString (o : JavaObject) : Steady (getString o) := by
  unfold getString
  refine .ite (.pure _) ?_
  split
  · exact .bind .raise fun _ => .bind .takeException fun _ => .pure _
  · exact .bind (.lend _) fun _ => .bind (.giveBack _) fun _ => .pure _

theorem steady_refTo (o : JavaObject) : Steady (refTo o) :=
  .ite (.pure _) (.bind (.lend _) fun _ => .pure _)

theorem steady_dropRef (ref : Option Loan) : Steady (dropRef ref) := by
  cases ref with
  | none => exact .pure _
  | some ref => exact .giveBack ref

end Native

end ValueCoverage
