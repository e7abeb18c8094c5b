import ValueCoverage.Agent.Conversion

/-!
# The agent

What the agent does when the machine loads it, starts, loads or prepares a class, writes to a
watched field, or ends. Nothing that fails here disturbs the observed program: a class that cannot
be instrumented stays as it was.
-/

namespace ValueCoverage.Agent

open ProcM

/-- What is returned to the machine if the agent has been loaded. -/
def loaded : Int := 0

/-- What is returned to the machine if it must not go on. -/
def refused : Int := -1

/-- The events that are turned on. -/
def events (fields : Bool) : List EventKind :=
  [.vmInit, .vmDeath, .classFileLoadHook] ++
    if fields then [.classPrepare, .fieldModification] else []

/-- What is logged when the agent is loaded. -/
def loading : LogEvent := ⟨"argcov::agent", .debug, ["message", "phase"]⟩

/-- Sets up the tool interface. The phase is asked for if it is to be logged. -/
def attach (fields logged : Bool) : Tool.Call Tool := do
  let tool ← Tool.obtain
  if logged then
    let _ ← tool.getPhase
  tool.addCapabilities ⟨fields, true, false⟩
  tool.setEventCallbacks EventKind.all
  (events fields).forM fun event => tool.setEventNotificationMode true event.number
  return tool

/-- Starts a run with the options and installs it. -/
def installRun (options : Options) : Attempt CoverageRun := do
  let r ← ExceptT.mk (pure (CoverageRun.start .standard options))
  install r
  return r

/-- Starts an agent: options, run, tool interface. -/
def start (env : String → Option String) (options : String) : Attempt Tool := do
  match Options.load env options with
  | .error e =>
    settleLog .standard
    throw (.options e)
  | .ok options =>
    settleLog (.ofString options.log)
    let _ ← installRun options
    tryOnMachine (attach options.fields (← logs loading))

/-- Loads another agent, which the machine does not call. -/
def loadAnother (env : String → Option String) (options : String) : ProcM Int := do
  match ← (start env options).run with
  | .ok _ => return loaded
  | .error _ => return refused

/-- Loads the agent that the machine calls. There is one at most. -/
def load (env : String → Option String) (options : String) : ProcM Int := do
  let p ← get
  if p.agent.isSome then return refused
  set { p with agent := some AgentState.new }
  match ← (start env options).run with
  | .ok tool =>
    onAgent fun a => { a with tool := some tool }
    return loaded
  | .error _ => return refused

/-- The class that takes arguments, with its native method. -/
def collectorClass : Except ClassFileError ClassFile := do
  let c ← ClassFile.newClass Target.collector.owner objectClass
    (AccessFlags.publicBit ||| AccessFlags.superBit)
  c.addMethod (AccessFlags.publicBit ||| AccessFlags.staticBit ||| AccessFlags.nativeBit)
    Target.collector.method Target.descriptor

/-- Defines the class that takes arguments and binds its native method. -/
def defineCollector : Attempt Unit := do
  let c ← ExceptT.mk (pure (collectorClass.mapError CoverageError.classFile))
  tryOnMachine do
    let ref ← Native.defineClass Target.collector.owner c.bytes
    Native.registerNatives Target.collector.owner [(Target.collector.method, Target.descriptor)]
    Native.deleteRef ref
  Conversion.prepare

/-- The machine has started. -/
def vmInit : ProcM Unit := do
  if (← get).agent.isSome then
    match ← defineCollector.run with
    | .ok _ => onAgent fun a => { a with ready := true }
    | .error _ => return ()

/-- The machine ends: the output file is written. -/
def vmDeath : ProcM Unit := do
  let p ← get
  match p.agent, p.run with
  | none, _ => return ()
  | some a, none => set { p with agent := some { a with ready := false } }
  | some a, some r =>
    let (_, r, files) := r.save p.files
    set { p with agent := some { a with ready := false }, run := some r, files }

/-- Instruments a class, and copies the new class file into memory of the machine. -/
def transform (tool : Tool) (bytes : Bytes) : Attempt (Option Bytes) := do
  match ← onRun fun _ r => r.instrument bytes with
  | some (.ok outcome) =>
    match outcome.bytes with
    | some bytes => return some (← tryOnMachine (tool.allocateCopy bytes)).content
    | none => return none
  | some (.error e) => throw e
  | none => return none

/-- A class file is loaded; `length` is what the machine says of its bytes. The answer is the class
file to use in its place, if there is one. -/
def classFileLoaded (name : Option Bytes) (bytes : Option Bytes) (length : Int) :
    ProcM (Option Bytes) := do
  match (← get).agent, bytes with
  | some ⟨some tool, true, _⟩, some bytes =>
    if length ≤ 0 then return none
    let name := name.map fun n => Text.Utf8.decodeLenient (n.takeWhile (· ≠ 0))
    if name = some Target.collector.owner then return none
    match ← (transform tool (bytes.take length.toNat)).run with
    | .ok replacement => return replacement
    | .error _ => return none
  | _, _ => return none

/-- Watches a field if it is observed, and declares it. -/
def watchField (tool : Tool) (owner : String) (id : Nat) (f : FieldInfo) : Attempt Unit := do
  let (name, descriptor) ← tryOnMachine (tool.getFieldName f)
  let modifiers ← tryOnMachine (tool.getFieldModifiers f)
  let member : Member := ⟨modifiers.toUInt32.toUInt16, owner, name, descriptor⟩
  if (← get).run.any fun r => r.instrumenter.accepts member then
    tryOnMachine (tool.setFieldModificationWatch f)
    let key := MemberKey.field owner name descriptor
    let _ ← onRun fun _ r => r.declare key
    onAgent fun a => { a with watched := a.watched.insert id ⟨key, descriptor⟩ }

/-- Watches the observed fields of a class, up to the first that cannot be. -/
def watchFields (tool : Tool) (c : ClassInfo) : Attempt Unit := do
  match binaryName? (← tryOnMachine (tool.getClassSignature c)) with
  | none => return ()
  | some owner =>
    (← tryOnMachine (tool.getClassFields c)).forM fun (id, f) => watchField tool owner id f

/-- A class has been prepared. -/
def classPrepared (c : ClassInfo) : ProcM Unit := do
  let p ← get
  match p.agent.bind AgentState.tool, p.run with
  | some tool, some _ =>
    let _ ← (watchFields tool c).run
  | _, _ => return ()

/-- A field is about to be written; `tag` is the first character of its descriptor. -/
def fieldModified (id : Nat) (tag : Char) (slot : SlotValue) : ProcM Unit := do
  let p ← get
  match p.agent.bind fun a => a.watched.get? id, p.run with
  | some field, some _ =>
    let _ ← record field.key do return [← Conversion.fieldValue tag slot]
    let _ ← takeException
  | _, _ => return ()

end ValueCoverage.Agent
