import ValueCoverage.Bytes

/-!
# Instructions

The instructions that hand arguments over have constructors of their own, and so have the two
switches, whose length depends on where they stand. Every other instruction is its opcode and its
operand bytes.
-/

namespace ValueCoverage

/-- The families of instructions that load a local variable. -/
inductive LoadKind where
  | int
  | long
  | float
  | double
  | reference
deriving Repr, DecidableEq

namespace LoadKind

/-- All of them, in the order of their opcodes. -/
def all : List LoadKind := [.int, .long, .float, .double, .reference]

def index : LoadKind → Nat
  | .int => 0
  | .long => 1
  | .float => 2
  | .double => 3
  | .reference => 4

/-- The letter of the family: the descriptor of its kind, and `A` for references. -/
def letter : LoadKind → Char
  | .int => 'I'
  | .long => 'J'
  | .float => 'F'
  | .double => 'D'
  | .reference => 'A'

def ofLetter? (c : Char) : Option LoadKind := all.find? fun k => k.letter = c

/-- How many words of the operand stack the value takes. -/
def stackWords : LoadKind → Nat
  | .long | .double => 2
  | _ => 1

end LoadKind

inductive Instruction where
  | nop
  /-- A small constant, from `-1` to `5`. -/
  | iconst (n : Int8)
  | bipush (n : Int8)
  | sipush (n : Int16)
  | ldc (index : UInt8)
  | ldcWide (index : UInt16)
  /-- Any form of a load; the writer takes the shortest. -/
  | load (kind : LoadKind) (slot : UInt16)
  | dup
  | aastore
  | anewarray (index : UInt16)
  | invokestatic (index : UInt16)
  | tableswitch (default low high : Int32) (offsets : List Int32)
  | lookupswitch (default : Int32) (pairs : List (Int32 × Int32))
  | other (opcode : UInt8) (operands : Bytes)
deriving Repr, DecidableEq

namespace Instruction

/-- The shortest instruction that pushes an integer constant. -/
def pushInt (n : Int) : Instruction :=
  if -1 ≤ n ∧ n ≤ 5 then .iconst (Int8.ofInt n)
  else if -128 ≤ n ∧ n ≤ 127 then .bipush (Int8.ofInt n)
  else .sipush (Int16.ofInt n)

/-- The shortest instruction that loads a constant of the pool. -/
def loadConstant (index : UInt16) : Instruction :=
  if index.toNat ≤ 0xFF then .ldc (UInt8.ofNat index.toNat) else .ldcWide index

end Instruction

/-- How many operand bytes an opcode has; none for opcodes that are invalid or whose length
varies. -/
def operandLength (op : Nat) : Option Nat :=
  if op ≤ 0x0F then some 0
  else if op = 0x10 ∨ op = 0x12 then some 1
  else if op = 0x11 ∨ op = 0x13 ∨ op = 0x14 then some 2
  else if op ≤ 0x19 then some 1
  else if op ≤ 0x35 then some 0
  else if op ≤ 0x3A then some 1
  else if op ≤ 0x83 then some 0
  else if op = 0x84 then some 2
  else if op ≤ 0x98 then some 0
  else if op ≤ 0xA8 then some 2
  else if op = 0xA9 then some 1
  else if op ≤ 0xAB then none
  else if op ≤ 0xB1 then some 0
  else if op ≤ 0xB8 then some 2
  else if op ≤ 0xBA then some 4
  else if op = 0xBB then some 2
  else if op = 0xBC then some 1
  else if op = 0xBD then some 2
  else if op ≤ 0xBF then some 0
  else if op ≤ 0xC1 then some 2
  else if op ≤ 0xC3 then some 0
  else if op = 0xC4 then none
  else if op = 0xC5 then some 3
  else if op ≤ 0xC7 then some 2
  else if op ≤ 0xC9 then some 4
  else if op = 0xCA ∨ op = 0xFE ∨ op = 0xFF then some 0
  else none

/-- How many zero bytes follow the opcode of a switch at `pc`, so that its operands start at a
multiple of four. -/
def switchPadding (pc : Nat) : Nat :=
  (4 - (pc + 1) % 4) % 4

end ValueCoverage
