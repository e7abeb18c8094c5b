/-!
# Stack map frames

A frame tells the types of local variables and of the operand stack at a place in code, as a change
of the frame before. Its place is told by a delta; the short forms hold a delta up to 63 in the byte
that tells their form, so a frame that moves may have to change its form.
-/

namespace ValueCoverage

/-- A type as the verifier sees it. -/
inductive VerificationType where
  | top
  | integer
  | float
  | double
  | long
  | null
  | uninitializedThis
  /-- An object of the class at a pool index. -/
  | object (index : UInt16)
  /-- An object made by the instruction at a place in code, not yet initialised. -/
  | uninitialized (offset : UInt16)
deriving Repr, DecidableEq

/-- A frame, with the delta that tells its place. -/
inductive Frame where
  | same (delta : UInt16)
  | sameItem (delta : UInt16) (item : VerificationType)
  | sameItemExtended (delta : UInt16) (item : VerificationType)
  /-- Drops the last `k` locals. -/
  | chop (delta : UInt16) (k : UInt8)
  | sameExtended (delta : UInt16)
  | append (delta : UInt16) (locals : List VerificationType)
  | full (delta : UInt16) (locals stack : List VerificationType)
deriving Repr, DecidableEq

namespace Frame

/-- The largest delta that a short form holds. -/
def shortDelta : Nat := 63

def delta : Frame → UInt16
  | .same d | .sameItem d _ | .sameItemExtended d _ | .chop d _ | .sameExtended d
  | .append d _ | .full d _ _ => d

/-- The frame with another delta. Frames that change nothing take the short form whenever the delta
fits; frames with one stack item leave it when the delta no longer fits and never return to it. -/
def withDelta (d : UInt16) : Frame → Frame
  | .same _ | .sameExtended _ => if d.toNat ≤ shortDelta then .same d else .sameExtended d
  | .sameItem _ item => if d.toNat ≤ shortDelta then .sameItem d item else .sameItemExtended d item
  | .sameItemExtended _ item => .sameItemExtended d item
  | .chop _ k => .chop d k
  | .append _ locals => .append d locals
  | .full _ locals stack => .full d locals stack

/-- The types that a frame lists, locals before the stack. -/
def types : Frame → List VerificationType
  | .same _ | .sameExtended _ | .chop _ _ => []
  | .sameItem _ item | .sameItemExtended _ item => [item]
  | .append _ locals => locals
  | .full _ locals stack => locals ++ stack

/-- The frame with `f` of every type that it lists. -/
def mapTypes (f : VerificationType → VerificationType) : Frame → Frame
  | .sameItem d item => .sameItem d (f item)
  | .sameItemExtended d item => .sameItemExtended d (f item)
  | .append d locals => .append d (locals.map f)
  | .full d locals stack => .full d (locals.map f) (stack.map f)
  | frame => frame

@[simp] theorem delta_withDelta (d : UInt16) (frame : Frame) : (frame.withDelta d).delta = d := by
  cases frame <;> simp only [withDelta] <;> (try split) <;> rfl

@[simp] theorem types_withDelta (d : UInt16) (frame : Frame) :
    (frame.withDelta d).types = frame.types := by
  cases frame <;> simp only [withDelta] <;> (try split) <;> rfl

theorem types_mapTypes (f : VerificationType → VerificationType) (frame : Frame) :
    (frame.mapTypes f).types = frame.types.map f := by
  cases frame <;> simp [mapTypes, types]

end Frame

end ValueCoverage
