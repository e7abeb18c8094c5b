import ValueCoverage.Error
import ValueCoverage.Vm.Object

/-!
# The virtual machine, as an agent sees it

An agent sees of the machine what its native interface and its tool interface tell, and owes it what
it was lent: local references, string buffers, blocks of memory. The machine is these debts, whether
an exception is pending, and the calls that were made; how calls can fail is a parameter.
-/

namespace ValueCoverage

/-- A function of the tool interface. -/
inductive ToolFunction where
  | addCapabilities
  | setEventCallbacks
  | setEventNotificationMode
  | getPhase
  | allocate
  | deallocate
  | getClassSignature
  | getClassFields
  | getFieldName
  | getFieldModifiers
  | setFieldModificationWatch
deriving Repr, DecidableEq

/-- The name of the function in the interface. -/
def ToolFunction.name : ToolFunction → String
  | .addCapabilities => "AddCapabilities"
  | .setEventCallbacks => "SetEventCallbacks"
  | .setEventNotificationMode => "SetEventNotificationMode"
  | .getPhase => "GetPhase"
  | .allocate => "Allocate"
  | .deallocate => "Deallocate"
  | .getClassSignature => "GetClassSignature"
  | .getClassFields => "GetClassFields"
  | .getFieldName => "GetFieldName"
  | .getFieldModifiers => "GetFieldModifiers"
  | .setFieldModificationWatch => "SetFieldModificationWatch"

/-- A field of a class. -/
structure FieldInfo where
  name : Option Bytes
  descriptor : Option Bytes
  modifiers : Int32
  /-- The codes with which functions answer for this field, whatever they answer for others. -/
  answers : ToolFunction → Option Nat

/-- A class, as the tool interface describes it. -/
structure ClassInfo where
  signature : Option Bytes
  generic : Option Bytes
  /-- The fields, unless the machine hands none out. -/
  fields : Option (List FieldInfo)
  /-- How many fields the machine claims, if not as many as there are. -/
  fieldCount : Option Int

/-- A call of the tool interface, as far as it is logged. -/
inductive ToolCall where
  | addCapabilities (bits : List Nat)
  | setEventCallbacks (present : List Bool)
  | setEventNotificationMode (enable : Bool) (event : Nat)
  | getPhase
  | allocate (size : Nat)
  | deallocate (live : Bool)
  | getClassSignature
  | getClassFields
  | getFieldName
  | getFieldModifiers
  | setFieldModificationWatch (field : Option Bytes)
deriving Repr, DecidableEq

/-- The function that is called. -/
def ToolCall.function : ToolCall → ToolFunction
  | .addCapabilities _ => .addCapabilities
  | .setEventCallbacks _ => .setEventCallbacks
  | .setEventNotificationMode _ _ => .setEventNotificationMode
  | .getPhase => .getPhase
  | .allocate _ => .allocate
  | .deallocate _ => .deallocate
  | .getClassSignature => .getClassSignature
  | .getClassFields => .getClassFields
  | .getFieldName => .getFieldName
  | .getFieldModifiers => .getFieldModifiers
  | .setFieldModificationWatch _ => .setFieldModificationWatch

/-- A method of a class, as the machine hands it out. -/
structure MethodId where
  owner : String
  name : String
  descriptor : String
deriving Repr, DecidableEq

/-- A call that is logged. -/
inductive VmCall where
  | defineClass (name : String) (bytes : Bytes)
  | findClass (name : String)
  | getMethodId (method : MethodId)
  | registerNatives (owner : String) (methods : List (String × String))
  | callObjectMethod (method : MethodId)
  | unbox (method : MethodId)
  | getTool (version : Nat)
  | tool (call : ToolCall)
deriving Repr, DecidableEq

/-- How a look-up ends. -/
inductive Lookup where
  | found
  /-- Without an exception. -/
  | missing
  | thrown
deriving Repr, DecidableEq

/-- How calls end that do not simply succeed. -/
structure Faults where
  defineClass : String → Lookup
  findClass : String → Lookup
  getMethodId : MethodId → Lookup
  /-- The code that is returned; nothing if an exception is thrown. -/
  registerNatives : Option Int
  /-- The code that is returned; nothing if success is claimed and no interface handed out. -/
  getTool : Option Int
  /-- The error code of a call of the tool interface; zero for success. -/
  tool : ToolCall → Nat
  /-- The functions that the tool interface lacks. -/
  lacks : ToolFunction → Bool

/-- What the machine lends and wants back. -/
inductive LoanKind where
  | localRef
  | stringBuffer
deriving Repr, DecidableEq

/-- One loan. All loans are numbered in their order. -/
structure Loan where
  kind : LoanKind
  number : Nat
deriving Repr, DecidableEq

/-- Something is lent, or given back. -/
inductive LoanEvent where
  | lent (loan : Loan)
  | returned (loan : Loan)
deriving Repr, DecidableEq

/-- Everything succeeds. -/
def Faults.none : Faults :=
  ⟨fun _ => .found, fun _ => .found, fun _ => .found, some 0, some 0, fun _ => 0, fun _ => false⟩

/-- The state of the machine. -/
structure Machine where
  faults : Faults
  /-- Which identity the machine gives to the field that it hands out as the `n`-th. -/
  fieldId : Nat → Nat
  /-- The logged calls, in order. -/
  calls : List VmCall
  /-- What has been lent and given back, in order. -/
  loans : List LoanEvent
  /-- How many loans have been made. -/
  loanCount : Nat
  /-- Blocks of memory that are not deallocated. -/
  blocks : List Nat
  /-- How many blocks have been handed out. -/
  blockCount : Nat
  /-- How many fields have been handed out. -/
  fieldCount : Nat
  /-- Whether an exception is pending. -/
  pending : Bool

/-- A machine that has not been called. -/
def Machine.new (faults : Faults) (fieldId : Nat → Nat) : Machine :=
  ⟨faults, fieldId, [], [], 0, [], 0, 0, false⟩

/-- What a call does to the machine. -/
abbrev VmM := StateM Machine

namespace Machine

/-- Logs a call. -/
def log (call : VmCall) : VmM Unit :=
  modify fun m => { m with calls := m.calls ++ [call] }

/-- An exception is thrown. -/
def raise : VmM Unit :=
  modify fun m => { m with pending := true }

/-- Lends something. -/
def lend (kind : LoanKind) : VmM Loan := do
  let m ← get
  let loan : Loan := ⟨kind, m.loanCount⟩
  set { m with loans := m.loans ++ [LoanEvent.lent loan], loanCount := m.loanCount + 1 }
  return loan

/-- Takes something back. -/
def giveBack (loan : Loan) : VmM Unit :=
  modify fun m => { m with loans := m.loans ++ [LoanEvent.returned loan] }

/-- How many more loans of the kind have been made than given back. -/
def owed (kind : LoanKind) (m : Machine) : Int :=
  m.loans.foldl (fun n e =>
    match e with
    | .lent loan => if loan.kind = kind then n + 1 else n
    | .returned loan => if loan.kind = kind then n - 1 else n) 0

/-- How many more local references have been handed out than deleted. -/
def refs (m : Machine) : Int := m.owed .localRef

/-- How many more string buffers have been handed out than released. -/
def strings (m : Machine) : Int := m.owed .stringBuffer

/-- Hands out a block of memory. -/
def newBlock : VmM Nat := do
  let m ← get
  set { m with blocks := m.blockCount :: m.blocks, blockCount := m.blockCount + 1 }
  return m.blockCount

/-- Takes a block back. -/
def freeBlock (block : Nat) : VmM Unit :=
  modify fun m => { m with blocks := m.blocks.erase block }

/-- Hands out the fields, each with its identity. -/
def numberFields (fields : List FieldInfo) : VmM (List (Nat × FieldInfo)) := do
  let m ← get
  set { m with fieldCount := m.fieldCount + fields.length }
  return fields.zipIdx.map fun f => (m.fieldId (m.fieldCount + f.2), f.1)

end Machine

end ValueCoverage
