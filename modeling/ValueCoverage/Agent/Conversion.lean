import ValueCoverage.Agent.Process

/-!
# From objects to values

Arguments come in an array of objects, primitive ones in wrappers. A wrapper of the kind that the
parameter has is unboxed; the value of any other object is what its `toString` says. No exception
that arises on the way reaches the observed program.

The code behind `toString` can call observed methods in turn, so that converting one object can mean
to convert others.
-/

namespace ValueCoverage.Conversion

open ProcM

/-- Stands for an object whose `toString` fails or has no answer. -/
def unprintable : Value := .text "<unprintable>"

/-- The method that every object has. -/
def toStringId : MethodId := ⟨objectClass, "toString", "()Ljava/lang/String;"⟩

/-- The accessor of the wrapper. -/
def unboxId (kind : Primitive) : MethodId := ⟨kind.boxClass, kind.unboxName, kind.unboxDescriptor⟩

/-- Looks up a method of a class. -/
def lookUp (method : MethodId) : Native.Call MethodId :=
  Native.withClass method.owner (Native.getMethodId method)

/-- Looks up all methods that convert values. -/
def lookUpAll : Native.Call Unit :=
  Native.withClass objectClass do
    let _ ← Native.getMethodId toStringId
    Primitive.all.forM fun kind => do
      let _ ← lookUp (unboxId kind)

/-- Looks up the methods that convert values, unless they are known. -/
def prepare : Attempt Unit := do
  if !(← get).methodsKnown then
    tryOnMachine lookUpAll
    modify fun p => { p with methodsKnown := true }

/-- Whether the methods that convert values are known, after an attempt to look them up. -/
def methodsKnown : ProcM Bool := do
  let _ ← prepare.run
  return (← get).methodsKnown

/-- The text of an object; `answer` is what its `toString` does and gives. -/
def textOf (o : JavaObject) (answer : ProcM JavaObject) : ProcM Value := do
  if o.isNull then return .null
  if !(← methodsKnown) then return unprintable
  onMachine (Machine.log (.callObjectMethod toStringId))
  let text ← answer
  if ← takeException then return unprintable
  onMachine do
    let ref ← Native.refTo text
    let s ← Native.getString text
    Native.dropRef ref
    return s.elim unprintable .text

/-- Whether the object is a wrapper of the kind, as far as the machine can tell. -/
def isBoxOf (kind : Primitive) (o : JavaObject) : VmM Bool := do
  let r ← (Native.withClass kind.boxClass (pure (o.className? == some kind.boxClass))).run
  return r.toOption.getD false

/-- What the accessor of a wrapper gives. -/
def unboxed (kind : Primitive) (o : JavaObject) : VmM Value := do
  Machine.log (.unbox (unboxId kind))
  match o with
  | .box _ bits _ _ throws =>
    if throws then Machine.raise
    return kind.ofBits bits
  | _ => return kind.ofBits 0

/-- The value of an argument for which the parameter has a primitive kind. -/
def unboxOf (kind : Primitive) (o : JavaObject) (answer : ProcM JavaObject) : ProcM Value := do
  if o.isNull then return .null
  if !(← methodsKnown) then textOf o answer
  else if !(← onMachine (isBoxOf kind o)) then textOf o answer
  else
    let value ← onMachine (unboxed kind o)
    return if ← takeException then unprintable else value

/-- The value of an element of an array. An element that cannot be read counts as nothing. -/
def elementOf (kind : Option Primitive) (fails : Bool) (o : JavaObject)
    (answer : ProcM JavaObject) : ProcM Value := do
  let o := if fails then JavaObject.null else o
  let ref ← onMachine do
    if fails then Machine.raise
    Native.refTo o
  let value ← if ← takeException then pure .null
    else match kind with
      | some kind => unboxOf kind o answer
      | none => textOf o answer
  onMachine (Native.dropRef ref)
  return value

/-- The primitive kind of a parameter. -/
def kindAt (params : List FieldType) (index : Nat) : Option Primitive :=
  params[index]?.bind FieldType.primitive?

/-- The values of elements that an array claims and does not have. -/
def absentElements (failsAt : List Nat) : (index count : Nat) → ProcM (List Value)
  | _, 0 => return []
  | index, count + 1 => do
    let value ← elementOf none (failsAt.contains index) .null (pure .null)
    return value :: (← absentElements failsAt (index + 1) count)

/-- What a call of the native method does, given how the arguments are captured. A descriptor that
is none has no parameters. -/
def observe (owner member signature : JavaObject) (capture : List FieldType → ProcM Observation) :
    ProcM Unit := do
  if (← get).run.isNone then return ()
  let owner ← onMachine (Native.getString owner)
  let member ← onMachine (Native.getString member)
  let signature ← onMachine (Native.getString signature)
  match owner, member, signature with
  | some owner, some member, some descriptor =>
    let params := match Descriptor.readMethod descriptor with
      | .ok type => type.params
      | .error _ => []
    let _ ← record ⟨owner, member⟩ (capture params)
  | _, _, _ => pure ()
  let _ ← takeException

mutual

/-- What `toString` does and gives. -/
def toText : JavaObject → ProcM JavaObject
  | .instance _ text charsMissing throws calls => do
    performAll calls
    if throws then
      onMachine Machine.raise
      return .null
    else return text.elim .null fun chars => .string (if charsMissing then none else some chars)
  | .box _ _ text throws _ => do
    if throws then
      onMachine Machine.raise
      return .null
    else return .ofText text
  | .array _ _ _ => return .string (some (Text.Utf8.encode "[array]"))
  | o => return o

/-- Makes calls of the native method, one after the other. -/
def performAll : List ObservedCall → ProcM Unit
  | [] => return ()
  | call :: rest => do
    perform call
    performAll rest

/-- A call of the native method. -/
def perform : ObservedCall → ProcM Unit
  | .mk owner member signature args =>
    observe owner member signature fun params => arguments params args

/-- The values of arguments. Elements for which there is no parameter are taken as objects. -/
def arguments (params : List FieldType) : JavaObject → ProcM Observation
  | .array elements length failsAt => elementsFrom params failsAt 0 length.toNat elements
  | _ => return []

/-- The values of `count` elements, of which the first has the index. -/
def elementsFrom (params : List FieldType) (failsAt : List Nat) (index count : Nat) :
    List JavaObject → ProcM (List Value)
  | [] => absentElements failsAt index count
  | o :: rest => do
    match count with
    | 0 => return []
    | count + 1 =>
      let value ← elementOf (kindAt params index) (failsAt.contains index) o (toText o)
      return value :: (← elementsFrom params failsAt (index + 1) count rest)

end

/-- The text of an object. -/
def objectText (o : JavaObject) : ProcM Value := textOf o (toText o)

/-- The value of a wrapper, or the text of any other object. -/
def unbox (kind : Primitive) (o : JavaObject) : ProcM Value := unboxOf kind o (toText o)

/-- The value that is written to a field; `tag` is the first character of its descriptor. -/
def fieldValue (tag : Char) (slot : SlotValue) : ProcM Value :=
  match Primitive.ofTag? tag, slot with
  | some kind, .bits bits => return kind.ofBits bits
  | some kind, .object _ => return kind.ofBits 0
  | none, .object o => objectText o
  | none, .bits _ => objectText .null

end ValueCoverage.Conversion
