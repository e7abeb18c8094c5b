import Mathlib.Data.List.Forall2
import ValueCoverage.Capture.Shift

/-!
# Tables of code that moves

A table keeps telling of the same instructions if every place in it moves by as many bytes as the
code. The places are numbers without bound here: that two bytes hold each of them follows from the
bound on the code. Frames are told by deltas, so it is the places that these add up to that move.
-/

namespace ValueCoverage

/-- Within code of so many bytes, moving by what still fits into two bytes is exact. -/
theorem toNat_add_ofNat {x : UInt16} {amount n : Nat} (hx : x.toNat ≤ n)
    (hfits : amount + n ≤ 65535) : (x + UInt16.ofNat amount).toNat = x.toNat + amount := by
  have hamount : (UInt16.ofNat amount).toNat = amount := by
    rw [UInt16.toNat_ofNat']; omega
  rw [UInt16.toNat_add, hamount]
  omega

theorem forall₂_map_of_forall {α β : Type} {R : α → β → Prop} {f : α → β} {xs : List α}
    (h : ∀ a ∈ xs, R a (f a)) : List.Forall₂ R xs (xs.map f) := by
  rw [List.forall₂_map_right_iff, List.forall₂_same]
  exact h

/-! ## Handlers and lines -/

/-- The range and its handler have moved. -/
structure ExceptionRange.MovedBy (amount : Nat) (e e' : ExceptionRange) : Prop where
  start : e'.start.toNat = e.start.toNat + amount
  stop : e'.stop.toNat = e.stop.toNat + amount
  handler : e'.handler.toNat = e.handler.toNat + amount
  catchType : e'.catchType = e.catchType

/-- The range and its handler lie within code of `n` bytes. -/
def ExceptionRange.Within (n : Nat) (e : ExceptionRange) : Prop :=
  e.start.toNat ≤ n ∧ e.stop.toNat ≤ n ∧ e.handler.toNat ≤ n

instance (n : Nat) (e : ExceptionRange) : Decidable (e.Within n) :=
  inferInstanceAs (Decidable (_ ∧ _ ∧ _))

theorem ExceptionRange.shift_movedBy {n amount : Nat} {e : ExceptionRange} (h : e.Within n)
    (hfits : amount + n ≤ 65535) : e.MovedBy amount (e.shift (UInt16.ofNat amount)) where
  start := toNat_add_ofNat h.1 hfits
  stop := toNat_add_ofNat h.2.1 hfits
  handler := toNat_add_ofNat h.2.2 hfits
  catchType := rfl

/-- The line starts at a place that has moved. -/
structure LineEntry.MovedBy (amount : Nat) (e e' : LineEntry) : Prop where
  start : e'.start.toNat = e.start.toNat + amount
  line : e'.line = e.line

theorem LineEntry.shift_movedBy {n amount : Nat} {e : LineEntry} (h : e.start.toNat ≤ n)
    (hfits : amount + n ≤ 65535) : e.MovedBy amount (e.shift (UInt16.ofNat amount)) :=
  ⟨toNat_add_ofNat h hfits, rfl⟩

/-! ## Local variables -/

namespace LocalEntry

/-- The variable lives at the place. -/
def Covers (e : LocalEntry) (pc : Nat) : Prop :=
  e.start.toNat ≤ pc ∧ pc < e.start.toNat + e.length.toNat

/-- The variable lives in code of `n` bytes. -/
def Within (n : Nat) (e : LocalEntry) : Prop :=
  e.start.toNat + e.length.toNat ≤ n

instance (n : Nat) (e : LocalEntry) : Decidable (e.Within n) :=
  inferInstanceAs (Decidable (_ ≤ _))

/-- In the old code the variable lives where it did. In front of it, it lives everywhere if it was
there from the start, and nowhere if not. -/
structure MovedBy (amount : Nat) (e e' : LocalEntry) : Prop where
  covers_add : ∀ pc, e'.Covers (pc + amount) ↔ e.Covers pc
  covers_front : (∀ pc, pc < amount → e'.Covers pc) ↔ e.start = 0
  not_covers_front : e.start ≠ 0 → ∀ pc, pc < amount → ¬ e'.Covers pc
  grows : e.start = 0 → e'.start = 0 ∧ e'.length.toNat = e.length.toNat + amount
  moves : e.start ≠ 0 → e'.start.toNat = e.start.toNat + amount ∧ e'.length = e.length
  name : e'.name = e.name
  type : e'.type = e.type
  slot : e'.slot = e.slot

theorem shift_movedBy {n amount : Nat} {e : LocalEntry} (h : e.Within n) (hpos : 0 < amount)
    (hfits : amount + n ≤ 65535) : e.MovedBy amount (e.shift (UInt16.ofNat amount)) := by
  unfold Within at h
  unfold shift
  split
  · next hzero =>
    have hstart : e.start.toNat = 0 := by rw [hzero]; rfl
    have hlength : (e.length + UInt16.ofNat amount).toNat = e.length.toNat + amount :=
      toNat_add_ofNat (n := n) (by omega) hfits
    refine ⟨fun pc => ?_, ⟨fun _ => hzero, fun _ pc hpc => ?_⟩, fun hne => absurd hzero hne,
      fun _ => ⟨hzero, hlength⟩, fun hne => absurd hzero hne, rfl, rfl, rfl⟩
    · simp only [Covers, hstart, hlength]
      omega
    · simp only [Covers, hstart, hlength]
      omega
  · next hne =>
    have hpositive : e.start.toNat ≠ 0 := fun hzero => hne (UInt16.toNat_inj.1 hzero)
    have hstart : (e.start + UInt16.ofNat amount).toNat = e.start.toNat + amount :=
      toNat_add_ofNat (n := n) (by omega) hfits
    refine ⟨fun pc => ?_, ⟨fun hall => ?_, fun hzero => absurd hzero hne⟩, fun _ pc hpc => ?_,
      fun hzero => absurd hzero hne, fun _ => ⟨hstart, rfl⟩, rfl, rfl, rfl⟩
    · simp only [Covers, hstart]
      omega
    · -- the first byte of what is in front is not covered
      have hfirst := hall 0 hpos
      simp only [Covers, hstart] at hfirst
      omega
    · simp only [Covers, hstart]
      omega

end LocalEntry

/-! ## Frames -/

/-- The place of an instruction that makes an object has moved; any other type is the same. -/
inductive VerificationType.MovedBy (amount : Nat) : VerificationType → VerificationType → Prop where
  | uninitialized {offset offset' : UInt16} (h : offset'.toNat = offset.toNat + amount) :
    MovedBy amount (.uninitialized offset) (.uninitialized offset')
  | same {t : VerificationType} (h : ∀ offset, t ≠ .uninitialized offset) : MovedBy amount t t

/-- The place that the type tells, if it does, lies within code of `n` bytes. -/
def VerificationType.Within (n : Nat) : VerificationType → Prop
  | .uninitialized offset => offset.toNat ≤ n
  | _ => True

instance (n : Nat) : (t : VerificationType) → Decidable (t.Within n)
  | .uninitialized offset => inferInstanceAs (Decidable (offset.toNat ≤ n))
  | .top | .integer | .float | .double | .long | .null | .uninitializedThis | .object _ =>
    isTrue trivial

theorem VerificationType.shift_movedBy {n amount : Nat} {t : VerificationType} (h : t.Within n)
    (hfits : amount + n ≤ 65535) : t.MovedBy amount (t.shift (UInt16.ofNat amount)) := by
  cases t with
  | uninitialized offset => exact .uninitialized (toNat_add_ofNat h hfits)
  | _ => exact .same (by simp)

namespace Frame

/-- What a frame changes, whatever its form and its delta. -/
inductive Change where
  | nothing
  | item (t : VerificationType)
  | chop (k : UInt8)
  | append (locals : List VerificationType)
  | full (locals stack : List VerificationType)

/-- What the frame changes. -/
def change : Frame → Change
  | .same _ | .sameExtended _ => .nothing
  | .sameItem _ item | .sameItemExtended _ item => .item item
  | .chop _ k => .chop k
  | .append _ locals => .append locals
  | .full _ locals stack => .full locals stack

/-- The changes are the same but for places in code, which have moved. -/
inductive Change.MovedBy (amount : Nat) : Change → Change → Prop where
  | nothing : MovedBy amount .nothing .nothing
  | item {t t' : VerificationType} (h : t.MovedBy amount t') : MovedBy amount (.item t) (.item t')
  | chop (k : UInt8) : MovedBy amount (.chop k) (.chop k)
  | append {locals locals' : List VerificationType}
    (h : List.Forall₂ (VerificationType.MovedBy amount) locals locals') :
    MovedBy amount (.append locals) (.append locals')
  | full {locals locals' stack stack' : List VerificationType}
    (hlocals : List.Forall₂ (VerificationType.MovedBy amount) locals locals')
    (hstack : List.Forall₂ (VerificationType.MovedBy amount) stack stack') :
    MovedBy amount (.full locals stack) (.full locals' stack')

/-- The places of frames behind one that stands at `pc`. -/
def placesAfter : (pc : Nat) → List Frame → List Nat
  | _, [] => []
  | pc, frame :: rest =>
    let next := pc + frame.delta.toNat + 1
    next :: placesAfter next rest

/-- The places of the frames of a table: the first delta is a place, and each one after it tells how
many bytes lie between. -/
def places : List Frame → List Nat
  | [] => []
  | first :: rest => first.delta.toNat :: placesAfter first.delta.toNat rest

/-- The frames tell of places that have all moved. -/
structure AllMovedBy (amount : Nat) (frames frames' : List Frame) : Prop where
  places : places frames' = (places frames).map (· + amount)
  changes : List.Forall₂ (fun frame frame' => Change.MovedBy amount frame.change frame'.change)
    frames frames'

/-- The frames stand, and tell of places, within code of `n` bytes. -/
structure AllWithin (n : Nat) (frames : List Frame) : Prop where
  places : ∀ pc ∈ places frames, pc ≤ n
  types : ∀ frame ∈ frames, ∀ t ∈ frame.types, t.Within n

instance (n : Nat) (frames : List Frame) : Decidable (AllWithin n frames) :=
  decidable_of_iff
    ((∀ pc ∈ Frame.places frames, pc ≤ n) ∧ ∀ frame ∈ frames, ∀ t ∈ frame.types, t.Within n)
    ⟨fun h => ⟨h.1, h.2⟩, fun h => ⟨h.places, h.types⟩⟩

@[simp] theorem delta_mapTypes (f : VerificationType → VerificationType) (frame : Frame) :
    (frame.mapTypes f).delta = frame.delta := by
  cases frame <;> rfl

@[simp] theorem change_withDelta (d : UInt16) (frame : Frame) :
    (frame.withDelta d).change = frame.change := by
  cases frame <;> simp only [withDelta] <;> (try split) <;> rfl

theorem placesAfter_map {f : Frame → Frame} (h : ∀ frame, (f frame).delta = frame.delta) (pc : Nat)
    (frames : List Frame) : placesAfter pc (frames.map f) = placesAfter pc frames := by
  induction frames generalizing pc with
  | nil => rfl
  | cons frame rest ih => simp only [List.map_cons, placesAfter, h, ih]

/-- If one place moves, so do all that are told from there. -/
theorem placesAfter_add (amount pc : Nat) (frames : List Frame) :
    placesAfter (pc + amount) frames = (placesAfter pc frames).map (· + amount) := by
  induction frames generalizing pc with
  | nil => rfl
  | cons frame rest ih =>
    simp only [placesAfter, List.map_cons, ← ih]
    rw [show pc + amount + frame.delta.toNat + 1 =
      pc + frame.delta.toNat + 1 + amount from by omega]

theorem forall₂_shift_movedBy {n amount : Nat} {types : List VerificationType}
    (h : ∀ t ∈ types, t.Within n) (hfits : amount + n ≤ 65535) :
    List.Forall₂ (VerificationType.MovedBy amount) types
      (types.map (VerificationType.shift (UInt16.ofNat amount))) :=
  forall₂_map_of_forall fun t ht => t.shift_movedBy (h t ht) hfits

theorem change_mapTypes_movedBy {n amount : Nat} {frame : Frame} (h : ∀ t ∈ frame.types, t.Within n)
    (hfits : amount + n ≤ 65535) :
    Change.MovedBy amount frame.change
      (frame.mapTypes (VerificationType.shift (UInt16.ofNat amount))).change := by
  cases frame with
  | same d => exact .nothing
  | sameItem d item => exact .item (item.shift_movedBy (h item (by simp [types])) hfits)
  | sameItemExtended d item => exact .item (item.shift_movedBy (h item (by simp [types])) hfits)
  | chop d k => exact .chop k
  | sameExtended d => exact .nothing
  | append d locals => exact .append (forall₂_shift_movedBy h hfits)
  | full d locals stack =>
    exact .full (forall₂_shift_movedBy (fun t ht => h t (by simp [types, ht])) hfits)
      (forall₂_shift_movedBy (fun t ht => h t (by simp [types, ht])) hfits)

/-- Only the first delta is changed, and yet every frame moves. -/
theorem shiftAll_movedBy {n amount : Nat} {frames : List Frame} (h : AllWithin n frames)
    (hfits : amount + n ≤ 65535) :
    AllMovedBy amount frames (shiftAll (UInt16.ofNat amount) frames) := by
  cases frames with
  | nil => exact ⟨rfl, .nil⟩
  | cons first rest =>
    have hdelta : (first.delta + UInt16.ofNat amount).toNat = first.delta.toNat + amount :=
      toNat_add_ofNat (h.places _ (by simp [Frame.places])) hfits
    constructor
    · -- the first place moves, and the places told from there move along
      simp only [shiftAll, List.map_cons, shiftFirst, Frame.places, delta_withDelta, delta_mapTypes,
        hdelta, placesAfter_map (delta_mapTypes _), placesAfter_add]
    · simp only [shiftAll, List.map_cons, shiftFirst]
      refine .cons ?_ ?_
      · rw [change_withDelta]
        exact change_mapTypes_movedBy (h.types first (by simp)) hfits
      · refine forall₂_map_of_forall fun frame hframe => ?_
        exact change_mapTypes_movedBy (h.types frame (by simp [hframe])) hfits

end Frame

/-! ## Attributes of code -/

/-- The places in the attribute have moved; an attribute without places is the same. -/
inductive Attribute.MovedBy (amount : Nat) : Attribute → Attribute → Prop where
  | code (name maxStack maxLocals : UInt16) (code : Bytes) (handlers : List ExceptionRange)
    (attributes : List Attribute) :
    MovedBy amount (.code name maxStack maxLocals code handlers attributes)
      (.code name maxStack maxLocals code handlers attributes)
  | stackMapTable (name : UInt16) {frames frames' : List Frame}
    (h : Frame.AllMovedBy amount frames frames') :
    MovedBy amount (.stackMapTable name frames) (.stackMapTable name frames')
  | exceptions (name : UInt16) (classes : List UInt16) :
    MovedBy amount (.exceptions name classes) (.exceptions name classes)
  | lineNumberTable (name : UInt16) {entries entries' : List LineEntry}
    (h : List.Forall₂ (LineEntry.MovedBy amount) entries entries') :
    MovedBy amount (.lineNumberTable name entries) (.lineNumberTable name entries')
  | localVariableTable (name : UInt16) {entries entries' : List LocalEntry}
    (h : List.Forall₂ (LocalEntry.MovedBy amount) entries entries') :
    MovedBy amount (.localVariableTable name entries) (.localVariableTable name entries')
  | localVariableTypeTable (name : UInt16) {entries entries' : List LocalEntry}
    (h : List.Forall₂ (LocalEntry.MovedBy amount) entries entries') :
    MovedBy amount (.localVariableTypeTable name entries) (.localVariableTypeTable name entries')
  | raw (name : UInt16) (info : Bytes) : MovedBy amount (.raw name info) (.raw name info)

/-- The places in the attribute lie within code of `n` bytes. -/
def Attribute.Within (n : Nat) : Attribute → Prop
  | .stackMapTable _ frames => Frame.AllWithin n frames
  | .lineNumberTable _ entries => ∀ e ∈ entries, e.start.toNat ≤ n
  | .localVariableTable _ entries | .localVariableTypeTable _ entries => ∀ e ∈ entries, e.Within n
  | _ => True

instance (n : Nat) : (a : Attribute) → Decidable (a.Within n)
  | .stackMapTable _ frames => inferInstanceAs (Decidable (Frame.AllWithin n frames))
  | .lineNumberTable _ entries => inferInstanceAs (Decidable (∀ e ∈ entries, e.start.toNat ≤ n))
  | .localVariableTable _ entries | .localVariableTypeTable _ entries =>
    inferInstanceAs (Decidable (∀ e ∈ entries, e.Within n))
  | .code _ _ _ _ _ _ | .exceptions _ _ | .raw _ _ => isTrue trivial

theorem Attribute.shift_movedBy {n amount : Nat} {a : Attribute} (h : a.Within n)
    (hpos : 0 < amount)
    (hfits : amount + n ≤ 65535) : a.MovedBy amount (a.shift (UInt16.ofNat amount)) := by
  cases a with
  | code name maxStack maxLocals code handlers attributes =>
    exact .code name maxStack maxLocals code handlers attributes
  | stackMapTable name frames => exact .stackMapTable name (Frame.shiftAll_movedBy h hfits)
  | exceptions name classes => exact .exceptions name classes
  | lineNumberTable name entries =>
    exact .lineNumberTable name (forall₂_map_of_forall fun e he =>
      LineEntry.shift_movedBy (h e he) hfits)
  | localVariableTable name entries =>
    exact .localVariableTable name (forall₂_map_of_forall fun e he =>
      LocalEntry.shift_movedBy (h e he) hpos hfits)
  | localVariableTypeTable name entries =>
    exact .localVariableTypeTable name (forall₂_map_of_forall fun e he =>
      LocalEntry.shift_movedBy (h e he) hpos hfits)
  | raw name info => exact .raw name info

namespace Code

/-- The places in the tables of the code lie within it. -/
structure PlacesWithin (code : Code) : Prop where
  handlers : ∀ e ∈ code.handlers, e.Within code.bytes.length
  attributes : ∀ a ∈ code.attributes, a.Within code.bytes.length

instance (code : Code) : Decidable code.PlacesWithin :=
  decidable_of_iff ((∀ e ∈ code.handlers, e.Within code.bytes.length) ∧
      ∀ a ∈ code.attributes, a.Within code.bytes.length)
    ⟨fun h => ⟨h.1, h.2⟩, fun h => ⟨h.handlers, h.attributes⟩⟩

/-- The tables tell of places that have all moved. -/
structure TablesMovedBy (amount : Nat) (code code' : Code) : Prop where
  handlers : List.Forall₂ (ExceptionRange.MovedBy amount) code.handlers code'.handlers
  attributes : List.Forall₂ (Attribute.MovedBy amount) code.attributes code'.attributes

theorem prepend_tablesMovedBy {code : Code} (h : code.PlacesWithin) {front : Bytes}
    (hpos : 0 < front.length) (hfits : front.length + code.bytes.length ≤ 65535) (depth : UInt16) :
    code.TablesMovedBy front.length (code.prepend front depth) where
  handlers := forall₂_map_of_forall fun e he => ExceptionRange.shift_movedBy (h.handlers e he) hfits
  attributes := forall₂_map_of_forall fun a ha =>
    Attribute.shift_movedBy (h.attributes a ha) hpos hfits

/-- No handler's range reaches into what is put in front. -/
theorem TablesMovedBy.le_start {amount : Nat} {code code' : Code}
    (h : code.TablesMovedBy amount code') : ∀ e ∈ code'.handlers, amount ≤ e.start.toNat := by
  have hall : List.Forall₂ (fun e' e => amount ≤ e'.start.toNat ∧ e.MovedBy amount e')
    code'.handlers
      code.handlers :=
    h.handlers.flip.imp fun e' e he => ⟨by rw [he.start]; omega, he⟩
  exact ((List.forall₂_and_left _ _).1 hall).1

end Code

end ValueCoverage
