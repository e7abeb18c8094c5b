import ValueCoverage.Text.Utf8
import ValueCoverage.Vm.Machine

/-!
# The tool interface

Calls into the machine that set up events and describe classes and fields. Each returns an error
code, and a function may be lacking altogether. What the machine hands out in memory is copied and
deallocated.
-/

namespace ValueCoverage

/-- Memory that the machine has handed out: a block and what it holds. -/
structure Lent (α : Type) where
  block : Nat
  content : α

/-- What an agent can ask the machine to do. -/
structure Capabilities where
  fieldModification : Bool
  allClassHooks : Bool
  earlyClassHooks : Bool
deriving Repr, DecidableEq

namespace Capabilities

/-- Nothing. -/
def none : Capabilities := ⟨false, false, false⟩

/-- The numbers of the bits that are set. -/
def bits (c : Capabilities) : List Nat :=
  [(c.fieldModification, 1), (c.allClassHooks, 26), (c.earlyClassHooks, 42)].filterMap fun b =>
    if b.1 then some b.2 else .none

end Capabilities

/-- The events that an agent handles. -/
inductive EventKind where
  | vmInit
  | vmDeath
  | classFileLoadHook
  | classPrepare
  | fieldModification
deriving Repr, DecidableEq

namespace EventKind

/-- The number of the event. -/
def number : EventKind → Nat
  | .vmInit => 50
  | .vmDeath => 51
  | .classFileLoadHook => 54
  | .classPrepare => 56
  | .fieldModification => 64

/-- All of them. -/
def all : List EventKind :=
  [.vmInit, .vmDeath, .classFileLoadHook, .classPrepare, .fieldModification]

/-- Which slots of the table of handlers are filled if these events are handled. -/
def table (handled : List EventKind) : List Bool :=
  (List.range 15).map fun i => (handled.map number).contains (50 + i)

end EventKind

/-- The tool interface, as it was handed out. -/
structure Tool where
  lacks : ToolFunction → Bool

namespace Tool

/-- What a call does to the machine, and how it fails. -/
abbrev Call (α : Type) := ExceptT CoverageError VmM α

/-- The version of the interface that is asked for. -/
def version : Nat := 0x30010200

/-- The error code for a function that is lacking. -/
def notAvailable : Nat := 98

/-- Asks the machine for the interface. -/
def obtain : Call Tool := do
  Machine.log (.getTool version)
  let faults := (← get).faults
  if faults.getTool = some 0 then return ⟨faults.lacks⟩
  else throw (.native "GetEnv")

/-- Fails if the function is lacking. -/
def require (t : Tool) (f : ToolFunction) : Call Unit :=
  if t.lacks f then throw (.tool f.name notAvailable) else return ()

/-- Fails if the code is not zero. -/
def check (f : ToolFunction) (code : Nat) : Call Unit :=
  if code = 0 then return () else throw (.tool f.name code)

/-- Makes a call; `own` is the code that what it is about has of its own, if it has one. -/
def call (t : Tool) (c : ToolCall) (own : Option Nat) : Call Unit := do
  t.require c.function
  Machine.log (.tool c)
  check c.function (own.getD ((← get).faults.tool c))

def addCapabilities (t : Tool) (c : Capabilities) : Call Unit :=
  t.call (.addCapabilities c.bits) none

def setEventCallbacks (t : Tool) (handled : List EventKind) : Call Unit :=
  t.call (.setEventCallbacks (EventKind.table handled)) none

/-- Turns an event on or off, on all threads. -/
def setEventNotificationMode (t : Tool) (enable : Bool) (event : Nat) : Call Unit :=
  t.call (.setEventNotificationMode enable event) none

/-- The phase that the machine is in; an agent is loaded in the first. -/
def getPhase (t : Tool) : Call Nat := do
  t.call .getPhase none
  return 1

/-! ## Memory -/

/-- The most bytes that a block handed to the machine can have. -/
def greatestBlock : Nat := 0x7FFFFFFF

/-- Copies bytes into memory of the machine. -/
def allocateCopy (t : Tool) (bytes : Bytes) : Call (Lent Bytes) := do
  if greatestBlock < bytes.length then throw (.tool ToolFunction.allocate.name notAvailable)
  t.call (.allocate bytes.length) none
  return ⟨← Machine.newBlock, bytes⟩

/-- Gives a block back, if there is one. It is gone even if an error code is returned. -/
def deallocate (t : Tool) : Option Nat → Call Unit
  | none => return ()
  | some block => do
    t.require .deallocate
    let c := ToolCall.deallocate ((← get).blocks.contains block)
    Machine.log (.tool c)
    Machine.freeBlock block
    check c.function ((← get).faults.tool c)

/-- Gives back what was handed out and keeps the content. -/
def take {α : Type} (t : Tool) (l : Lent α) : Call α := do
  t.deallocate (some l.block)
  return l.content

/-- Hands out memory with the content, if there is any. -/
def lend {α : Type} : Option α → VmM (Option (Lent α))
  | none => return none
  | some content => return some ⟨← Machine.newBlock, content⟩

/-- Copies a text and gives its memory back. Ill-formed characters are replaced. -/
def takeText (t : Tool) : Option (Lent Bytes) → Call (Option String)
  | none => return none
  | some l => return some (Text.Utf8.decodeLenient ((← t.take l).takeWhile (· ≠ 0)))

/-! ## Classes and fields -/

/-- The type signature of a class; empty if the machine has none. -/
def getClassSignature (t : Tool) (c : ClassInfo) : Call String := do
  t.call .getClassSignature none
  let signature ← lend c.signature
  let generic ← lend c.generic
  let _ ← t.takeText generic
  return (← t.takeText signature).getD ""

/-- The fields of a class, each with its identity. -/
def getClassFields (t : Tool) (c : ClassInfo) : Call (List (Nat × FieldInfo)) := do
  t.call .getClassFields none
  match c.fields with
  | none => return []
  | some fields =>
    let numbered ← Machine.numberFields fields
    let count := (c.fieldCount.getD fields.length).toNat
    t.take ⟨← Machine.newBlock, numbered.take count⟩

/-- The name and the descriptor of a field; each is empty if the machine has none. -/
def getFieldName (t : Tool) (f : FieldInfo) : Call (String × String) := do
  t.call .getFieldName (f.answers .getFieldName)
  let name ← lend f.name
  let descriptor ← lend f.descriptor
  let name ← t.takeText name
  let descriptor ← t.takeText descriptor
  return (name.getD "", descriptor.getD "")

def getFieldModifiers (t : Tool) (f : FieldInfo) : Call Int32 := do
  t.call .getFieldModifiers (f.answers .getFieldModifiers)
  return f.modifiers

/-- Asks the machine to tell when the field is written. -/
def setFieldModificationWatch (t : Tool) (f : FieldInfo) : Call Unit :=
  t.call (.setFieldModificationWatch f.name) (f.answers .setFieldModificationWatch)

end Tool

end ValueCoverage
