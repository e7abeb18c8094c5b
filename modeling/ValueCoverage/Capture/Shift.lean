import ValueCoverage.ClassFile.Basic

/-!
# Places in code that moves

If code is put in front of a method, everything that names a place in the old code moves with it. A
local variable that lives from the very start is taken for a parameter and lives in the new code,
too. Frames are told by deltas, so only the first one changes.
-/

namespace ValueCoverage

def ExceptionRange.shift (amount : UInt16) (e : ExceptionRange) : ExceptionRange :=
  { e with start := e.start + amount, stop := e.stop + amount, handler := e.handler + amount }

def LineEntry.shift (amount : UInt16) (e : LineEntry) : LineEntry :=
  { e with start := e.start + amount }

/-- The range moves, or grows if it starts at the very start. -/
def LocalEntry.shift (amount : UInt16) (e : LocalEntry) : LocalEntry :=
  if e.start = 0 then { e with length := e.length + amount }
  else { e with start := e.start + amount }

/-- The instruction that made an uninitialised object moves. -/
def VerificationType.shift (amount : UInt16) : VerificationType → VerificationType
  | .uninitialized offset => .uninitialized (offset + amount)
  | t => t

namespace Frame

/-- The first frame's delta is its place, so it grows. -/
def shiftFirst (amount : UInt16) : List Frame → List Frame
  | [] => []
  | first :: rest => first.withDelta (first.delta + amount) :: rest

/-- The frames of code that moves. -/
def shiftAll (amount : UInt16) (frames : List Frame) : List Frame :=
  shiftFirst amount (frames.map (mapTypes (VerificationType.shift amount)))

end Frame

/-- The places in the attributes of code move; other attributes stay as they are. -/
def Attribute.shift (amount : UInt16) : Attribute → Attribute
  | .lineNumberTable name entries => .lineNumberTable name (entries.map (·.shift amount))
  | .localVariableTable name entries => .localVariableTable name (entries.map (·.shift amount))
  | .localVariableTypeTable name entries =>
    .localVariableTypeTable name (entries.map (·.shift amount))
  | .stackMapTable name frames => .stackMapTable name (Frame.shiftAll amount frames)
  | a => a

namespace Code

/-- The tables of code that moves. -/
def shiftTables (amount : UInt16) (c : Code) : Code :=
  { c with
    handlers := c.handlers.map (·.shift amount)
    attributes := c.attributes.map (·.shift amount) }

/-- Puts code in front, whose length is less than 65536, and moves the places in the old code. -/
def prepend (front : Bytes) (depth : UInt16) (c : Code) : Code :=
  { c.shiftTables (UInt16.ofNat front.length) with
    bytes := front ++ c.bytes
    maxStack := max c.maxStack depth }

end Code

end ValueCoverage
