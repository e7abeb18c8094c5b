import ValueCoverage.Bytecode.StackDepth
import ValueCoverage.Bytecode.Writer
import ValueCoverage.Capture.Prefix
import ValueCoverage.Capture.Shift
import ValueCoverage.ClassFile.Reader
import ValueCoverage.ClassFile.Writer
import ValueCoverage.Error

/-!
# Instrumenting classes

Every selected method with code and parameters gets the capture prefix. The prefix is brought to a
multiple of four bytes, so the padding of switches in the old code stays right and the old code is
kept byte for byte. A method that cannot be instrumented is reported and left as it is.
-/

namespace ValueCoverage

/-- A member that exists, whether or not it is ever observed. -/
structure Declaration where
  key : MemberKey
  descriptor : String
deriving Repr, DecidableEq

/-- What instrumenting a class came to. -/
structure ClassOutcome where
  /-- The binary name of the class. -/
  owner : String
  /-- The new class file, if a method was instrumented. -/
  bytes : Option Bytes
  declarations : List Declaration
  /-- Members that could not be instrumented, and why. -/
  failures : List (String × CoverageError)
  instrumented : Nat
deriving Repr, DecidableEq

/-- How classes are instrumented: which members are observed, what takes the arguments, and whether
fields are declared. -/
structure Instrumenter where
  accepts : Member → Bool
  target : Target
  fields : Bool

namespace Instrumenter

/-- The greatest length of the code of a method. -/
def greatestCode : Nat := 65535

/-- A method that is to be instrumented, by its place in the class. -/
structure Planned where
  index : Nat
  key : MemberKey
  descriptor : String
  params : List FieldType
  isStatic : Bool
deriving Repr, DecidableEq

/-- What the predicate is asked about a field or method of the class. -/
def memberOf (c : ClassFile) (owner : String) (m : ClassMember) : Except ClassFileError Member := do
  let name ← c.pool.getUtf8 m.name
  let descriptor ← c.pool.getUtf8 m.descriptor
  return ⟨m.access, owner, name, descriptor⟩

def declareField (r : Instrumenter) (c : ClassFile) (owner : String) (m : ClassMember) :
    Except ClassFileError (Option Declaration) := do
  let field ← memberOf c owner m
  return if r.accepts field then
    some ⟨.field owner field.name field.descriptor, field.descriptor⟩ else none

def declareFields (r : Instrumenter) (c : ClassFile) (owner : String) :
    Except ClassFileError (List Declaration) :=
  if r.fields then do
    let found ← c.fields.mapM (r.declareField c owner)
    return found.filterMap id
  else return []

/-- What is to be done with a method. -/
inductive Decision where
  | skip
  | fail (member : String) (error : CoverageError)
  | instrument (planned : Planned)
deriving Repr, DecidableEq

/-- A method is left alone if it is not observed, or has no code or no parameters. -/
def decide (r : Instrumenter) (c : ClassFile) (owner : String) (index : Nat) (m : ClassMember) :
    Except ClassFileError Decision := do
  let method ← memberOf c owner m
  if !r.accepts method || m.code?.isNone then return .skip
  else
    let key := MemberKey.method owner method.name method.descriptor
    match Descriptor.readMethod method.descriptor with
    | .error e => return .fail key.member (.descriptor e)
    | .ok type =>
      if type.params.isEmpty then return .skip
      else return .instrument ⟨index, key, method.descriptor, type.params, m.access.has .staticBit⟩

def decideAll (r : Instrumenter) (c : ClassFile) (owner : String) :
    Except ClassFileError (List Decision) :=
  c.methods.zipIdx.mapM fun m => r.decide c owner m.2 m.1

/-- The bytes of the prefix, with what does nothing up to a multiple of four. -/
def paddedPrefix (code : List Instruction) : Bytes :=
  let bytes := Bytecode.encode 0 code
  bytes ++ List.replicate (Capture.padding bytes.length) 0

/-- Puts the prefix in front of a method's code. -/
def instrumentCode (member : String) (front : Bytes) (depth : UInt16) (m : ClassMember) :
    Except CoverageError ClassMember :=
  match m.code? with
  | none => .error (.classFile (.invalidAttribute "Code"))
  | some code =>
    let size := front.length + code.bytes.length
    if size > greatestCode then .error (.codeTooLarge member size)
    else .ok (m.withCode (code.prepend front depth))

/-- Instruments one method. Constants that were added before a failure stay in the pool. -/
def instrumentMethod (r : Instrumenter) (p : Planned) (c : ClassFile) :
    Except CoverageError Unit × ClassFile :=
  match (CaptureRefs.intern p.key p.descriptor p.params r.target).on c.pool with
  | (.error e, pool) => (.error (.classFile e), { c with pool })
  | (.ok refs, pool) =>
    let c := { c with pool }
    let code := Capture.prefixCode p.params p.isStatic refs
    match Bytecode.peakDepth refs.callEffect code, c.methods[p.index]? with
    | .error e, _ => (.error (.bytecode e), c)
    | .ok _, none => (.error (.classFile (.invalidAttribute "Code")), c)
    | .ok depth, some m =>
      match instrumentCode p.key.member (paddedPrefix code) depth m with
      | .error e => (.error e, c)
      | .ok m => (.ok (), { c with methods := c.methods.set p.index m })

/-- What has come of the decisions so far. -/
structure Progress where
  file : ClassFile
  declared : List Declaration
  failures : List (String × CoverageError)
  /-- The places of the methods that have been instrumented. -/
  instrumented : List Nat

def Progress.step (r : Instrumenter) (s : Progress) (p : Planned) : Progress :=
  match r.instrumentMethod p s.file with
  | (.ok (), file) =>
    { s with file, declared := s.declared ++ [⟨p.key, p.descriptor⟩]
             instrumented := s.instrumented ++ [p.index] }
  | (.error e, file) => { s with file, failures := s.failures ++ [(p.key.member, e)] }

def Decision.failure? : Decision → Option (String × CoverageError)
  | .fail member e => some (member, e)
  | _ => none

def Decision.planned? : Decision → Option Planned
  | .instrument p => some p
  | _ => none

def instrumentAll (r : Instrumenter) (c : ClassFile) (decisions : List Decision) : Progress :=
  (decisions.filterMap Decision.planned?).foldl (Progress.step r)
    ⟨c, [], decisions.filterMap Decision.failure?, []⟩

/-- A class that has been instrumented and not yet been written. -/
structure Rewriting where
  /-- The binary name of the class. -/
  owner : String
  fields : List Declaration
  methods : Progress

def rewrite (r : Instrumenter) (c : ClassFile) : Except ClassFileError Rewriting := do
  let owner := Text.pointed (← c.name)
  let fields ← r.declareFields c owner
  let decisions ← r.decideAll c owner
  return ⟨owner, fields, r.instrumentAll c decisions⟩

/-- What is told of an instrumented class. It is written only if a method was instrumented. -/
def Rewriting.outcome (w : Rewriting) : ClassOutcome where
  owner := w.owner
  bytes := if w.methods.instrumented.isEmpty then none else some w.methods.file.bytes
  declarations := w.fields ++ w.methods.declared
  failures := w.methods.failures
  instrumented := w.methods.instrumented.length

def instrument (r : Instrumenter) (bytes : Bytes) : Except CoverageError ClassOutcome :=
  (do return (← r.rewrite (← ClassFile.read bytes)).outcome).mapError .classFile

/-- Instruments a class file and tells a sink of every declaration, one after the other. -/
def instrumentInto {σ : Type} (r : Instrumenter) (declare : σ → Declaration → σ) (sink : σ)
    (bytes : Bytes) : Except CoverageError ClassOutcome × σ :=
  match r.instrument bytes with
  | .error e => (.error e, sink)
  | .ok outcome => (.ok outcome, outcome.declarations.foldl declare sink)

end Instrumenter

end ValueCoverage
