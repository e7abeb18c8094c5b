import ValueCoverage.Text.Utf8
import ValueCoverage.Vm.Machine

/-!
# The native interface

Calls into the machine that look up classes and methods, define a class, read strings. A failure is
reported by name, and the exception that came with it is cleared. References to what is found are
local and have to be deleted.
-/

namespace ValueCoverage.Native

/-- What a call does to the machine, and how it fails. -/
abbrev Call (α : Type) := ExceptT CoverageError VmM α

/-- A name that is passed to the machine cannot hold a zero character. -/
def passName (call name : String) : Call Unit :=
  if name.toList.contains '\x00' then throw (.native call) else return ()

/-- Clears a pending exception; says whether there was one. -/
def takeException : VmM Bool := do
  let m ← get
  set { m with pending := false }
  return m.pending

/-- What the machine hands out at the end of a look-up; `found` is what there is to be had. -/
def handOut {α : Type} (outcome : Lookup) (found : VmM α) : VmM (Option α) :=
  match outcome with
  | .found => some <$> found
  | .missing => return none
  | .thrown => do
    Machine.raise
    return none

/-- The result of a call; it fails if there is none, or if an exception is pending. -/
def finish {α : Type} (call : String) (result : VmM (Option α)) : Call α := do
  let result ← result
  match ← takeException, result with
  | false, some a => return a
  | _, _ => throw (.native call)

/-- Defines a class in the bootstrap loader. The result is a local reference. -/
def defineClass (name : String) (bytes : Bytes) : Call Loan := do
  passName "DefineClass" name
  Machine.log (.defineClass name bytes)
  finish "DefineClass" (handOut ((← get).faults.defineClass name) (Machine.lend .localRef))

/-- Finds a class by its internal name. The result is a local reference. -/
def findClass (name : String) : Call Loan := do
  passName "FindClass" name
  Machine.log (.findClass name)
  finish "FindClass" (handOut ((← get).faults.findClass name) (Machine.lend .localRef))

/-- Finds a method of a class that has been found. -/
def getMethodId (method : MethodId) : Call MethodId := do
  passName "GetMethodID" method.name
  passName "GetMethodID" method.descriptor
  Machine.log (.getMethodId method)
  finish "GetMethodID" (handOut ((← get).faults.getMethodId method) (pure method))

/-- Deletes a local reference. -/
def deleteRef (ref : Loan) : VmM Unit := Machine.giveBack ref

/-- Hands out a local reference to an object, if there is an object. -/
def refTo (o : JavaObject) : VmM (Option Loan) :=
  if o.isNull then return none else some <$> Machine.lend .localRef

/-- Deletes a local reference, if there is one. -/
def dropRef : Option Loan → VmM Unit
  | none => return ()
  | some ref => deleteRef ref

/-- Runs `x` with a reference to the class and deletes the reference, come what may. -/
def withClass {α : Type} (name : String) (x : Call α) : Call α := do
  let ref ← findClass name
  ExceptT.mk do
    let r ← x.run
    deleteRef ref
    return r

/-- Binds native methods of a class that has been defined. -/
def registerNatives (owner : String) (methods : List (String × String)) : Call Unit := do
  Machine.log (.registerNatives owner methods)
  let code := (← get).faults.registerNatives
  if code.isNone then Machine.raise
  if (← takeException) || code ≠ some 0 then throw (.native "RegisterNatives")

/-- Copies a string. Ill-formed characters are replaced. -/
def getString (o : JavaObject) : VmM (Option String) := do
  if o.isNull then return none
  match o.chars? with
  | none =>
    Machine.raise
    let _ ← takeException
    return none
  | some chars =>
    let buffer ← Machine.lend .stringBuffer
    Machine.giveBack buffer
    return some (Text.Utf8.decodeLenient chars)

end ValueCoverage.Native
