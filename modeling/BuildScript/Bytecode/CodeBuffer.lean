import BuildScript.Bytecode.Wire

/-!
# Code buffers

Assembling code by hand: bytes and instructions are added at the end, and the distance of a forward
jump, unknown when the jump is added, is filled in once its target is reached.
-/

namespace BuildScript

structure CodeBuffer where
  bytes : Array UInt8 := #[]
deriving DecidableEq, Repr, Inhabited

namespace CodeBuffer

/-- Where the next byte goes. -/
def offset (b : CodeBuffer) : Nat := b.bytes.size

def append (b : CodeBuffer) (bytes : List UInt8) : CodeBuffer := ⟨b.bytes ++ bytes⟩

def opcode (b : CodeBuffer) (op : Opcode) : CodeBuffer := ⟨b.bytes.push op.byte⟩

/-- A code with an index into the constant pool. -/
def indexed (b : CodeBuffer) (op : Opcode) (index : UInt32) : CodeBuffer :=
  (b.opcode op).append (Wire.word index)

/-- A code with a local slot or a count. -/
def counted (b : CodeBuffer) (op : Opcode) (count : UInt16) : CodeBuffer :=
  (b.opcode op).append (Wire.half count)

/-- A code with the name and the argument count of a call. -/
def invoke (b : CodeBuffer) (op : Opcode) (name : UInt32) (count : UInt16) : CodeBuffer :=
  (b.indexed op name).append (Wire.half count)

/-- Room for four bytes, and where it is. -/
def reserve (b : CodeBuffer) : CodeBuffer × Nat := (b.append (Wire.word 0), b.offset)

/-- Overwrites the four bytes at a position. -/
def patch (b : CodeBuffer) (position : Nat) (x : UInt32) : CodeBuffer :=
  ⟨(b.bytes.extract 0 position) ++ (Wire.word x).toArray ++ b.bytes.extract (position + 4)⟩

/-- The distance to `target` from a jump whose operand stands at `operand`. -/
def distance (operand target : Nat) : Int32 := Int32.ofNat target - (Int32.ofNat operand + 4)

/-- A jump whose distance is still to be patched, and the position of its operand. -/
def jump (b : CodeBuffer) (op : Opcode) : CodeBuffer × Nat := (b.opcode op).reserve

/-- A jump to a known offset. -/
def jumpTo (b : CodeBuffer) (op : Opcode) (target : Nat) : CodeBuffer :=
  let b := b.opcode op
  b.append (Wire.word (distance b.offset target).toUInt32)

/-- Points the jump whose operand stands at `operand` to the current offset. -/
def patchJump (b : CodeBuffer) (operand : Nat) : CodeBuffer :=
  b.patch operand (distance operand b.offset).toUInt32

end CodeBuffer

end BuildScript
