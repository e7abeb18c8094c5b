import ValueCoverage.Text.Split

/-!
# Members and their keys

A member is a method or a field of a class. Coverage is kept under its key: the binary name of the
class and, for a method, its name and descriptor, for a field its name, a colon and its descriptor.
-/

namespace ValueCoverage

/-- The access flags of a class, a field or a method. Some bits mean different things on each. -/
abbrev AccessFlags := UInt16

namespace AccessFlags

/-- Visible everywhere. -/
def publicBit : AccessFlags := 0x0001

/-- Belongs to the class and not to its instances. -/
def staticBit : AccessFlags := 0x0008

/-- On a class: calls to inherited methods are resolved in the modern way. -/
def superBit : AccessFlags := 0x0020

/-- On a method: made by a compiler to bridge two signatures. -/
def bridgeBit : AccessFlags := 0x0040

/-- On a method: implemented outside the virtual machine. -/
def nativeBit : AccessFlags := 0x0100

/-- Made by a compiler and absent from the source. -/
def syntheticBit : AccessFlags := 0x1000

/-- Whether all bits of `mask` are set. -/
def has (flags mask : AccessFlags) : Bool :=
  flags &&& mask = mask

end AccessFlags

/-- What a selection of members may look at. -/
structure Member where
  access : AccessFlags
  /-- The binary name of the class. -/
  owner : String
  name : String
  descriptor : String
deriving Repr, DecidableEq

namespace Member

/-- Whether a descriptor belongs to a method. -/
def isMethodDescriptor (descriptor : String) : Bool :=
  Text.startsWith "(" descriptor

/-- Whether the member is a method; if not, it is a field. -/
def isMethod (m : Member) : Bool :=
  isMethodDescriptor m.descriptor

end Member

/-- The binary name of a class from its type signature. -/
def binaryName? (signature : String) : Option String := do
  let rest ← Text.dropPrefix? ['L'] signature.toList
  let internal ← Text.dropSuffix? [';'] rest
  some (Text.pointed (String.ofList internal))

/-- What coverage of a member is kept under. -/
structure MemberKey where
  owner : String
  member : String
deriving Repr, DecidableEq

namespace MemberKey

/-- Stands between owner and member on a header line. -/
def separator : Char := '#'

/-- The key of a method. -/
def method (owner name descriptor : String) : MemberKey :=
  ⟨owner, name ++ descriptor⟩

/-- The key of a field. -/
def field (owner name descriptor : String) : MemberKey :=
  ⟨owner, name ++ ":" ++ descriptor⟩

/-- The key as one text. -/
def text (k : MemberKey) : String :=
  k.owner ++ separator.toString ++ k.member

end MemberKey

end ValueCoverage
