import BuildScript.Bytecode.LittleEndian
import BuildScript.Bytecode.Opcode

/-!
# Instructions

An instruction is an operation with its operands. `Instr.encode` writes it as bytes and
`Instr.decode` reads it back; `decode_encode` says that they fit together whatever follows. Code
generation, verification and execution all go through this pair, so they agree on where each
instruction ends.
-/

namespace BuildScript

inductive Instr where
  | nop | pop | dup
  | pushNull | pushTrue | pushFalse
  /-- Pushes a number of the constant pool. -/
  | pushInt (index : UInt32)
  | pushFloat (index : UInt32)
  | pushStr (index : UInt32)
  /-- Pushes the class that a string of the pool names. -/
  | pushClass (index : UInt32)
  | loadLocal (slot : UInt16)
  | storeLocal (slot : UInt16)
  | loadVar (name : UInt32)
  | storeVar (name : UInt32)
  | getProperty (name : UInt32)
  | arithmetic (op : Arithmetic)
  | negate
  | compare (op : Comparison)
  | not
  /-- A jump over `distance` bytes, counted from the next instruction in line. -/
  | jump (kind : JumpKind) (distance : Int32)
  /-- A call on the running script. -/
  | invokeMethod (name : UInt32) (count : UInt16)
  /-- A call on the value below the arguments. -/
  | invokeVirtual (name : UInt32) (count : UInt16)
  | newList (count : UInt16)
  | return | returnNull
deriving DecidableEq, Repr

namespace Instr

def opcode : Instr → Opcode
  | nop => .nop
  | pop => .pop
  | dup => .dup
  | pushNull => .pushNull
  | pushTrue => .pushTrue
  | pushFalse => .pushFalse
  | pushInt _ => .pushInt
  | pushFloat _ => .pushFloat
  | pushStr _ => .pushStr
  | pushClass _ => .pushClass
  | loadLocal _ => .loadLocal
  | storeLocal _ => .storeLocal
  | loadVar _ => .loadVar
  | storeVar _ => .storeVar
  | getProperty _ => .getProperty
  | arithmetic op => .arithmetic op
  | negate => .negate
  | compare op => .compare op
  | not => .not
  | jump kind _ => .jump kind
  | invokeMethod _ _ => .invokeMethod
  | invokeVirtual _ _ => .invokeVirtual
  | newList _ => .newList
  | .return => .return
  | returnNull => .returnNull

def operands : Instr → List UInt8
  | pushInt i | pushFloat i | pushStr i | pushClass i | loadVar i | storeVar i | getProperty i =>
    LittleEndian.encode 4 i.toNat
  | loadLocal n | storeLocal n | newList n => LittleEndian.encode 2 n.toNat
  | jump _ distance => LittleEndian.encode 4 distance.toUInt32.toNat
  | invokeMethod i n | invokeVirtual i n =>
    LittleEndian.encode 4 i.toNat ++ LittleEndian.encode 2 n.toNat
  | _ => []

def encode (i : Instr) : List UInt8 := i.opcode.byte :: i.operands

/-- Bytes of the instruction. -/
def size (i : Instr) : Nat := 1 + i.opcode.operandSize

theorem length_operands (i : Instr) : i.operands.length = i.opcode.operandSize := by
  cases i <;> simp [operands, opcode, Opcode.operandSize]

theorem length_encode (i : Instr) : i.encode.length = i.size := by
  simp [encode, size, length_operands, Nat.add_comm]

/-- The instruction with the given code and operand bytes. -/
def ofOperands (op : Opcode) (bytes : List UInt8) : Instr :=
  let wide := UInt32.ofNat (LittleEndian.decode (bytes.take 4))
  let narrow := UInt16.ofNat (LittleEndian.decode (bytes.take 2))
  let behind := UInt16.ofNat (LittleEndian.decode ((bytes.drop 4).take 2))
  match op with
  | .nop => nop
  | .pop => pop
  | .dup => dup
  | .pushNull => pushNull
  | .pushTrue => pushTrue
  | .pushFalse => pushFalse
  | .pushInt => pushInt wide
  | .pushFloat => pushFloat wide
  | .pushStr => pushStr wide
  | .pushClass => pushClass wide
  | .loadLocal => loadLocal narrow
  | .storeLocal => storeLocal narrow
  | .loadVar => loadVar wide
  | .storeVar => storeVar wide
  | .getProperty => getProperty wide
  | .arithmetic op => arithmetic op
  | .negate => negate
  | .compare op => compare op
  | .not => not
  | .jump kind => jump kind wide.toInt32
  | .invokeMethod => invokeMethod wide behind
  | .invokeVirtual => invokeVirtual wide behind
  | .newList => newList narrow
  | .return => .return
  | .returnNull => returnNull

/-- Why bytes are no instruction. -/
inductive Fault where
  | unknown (byte : UInt8)
  /-- The operands are cut off; `present` are the bytes there are. -/
  | cut (op : Opcode) (present : List UInt8)
deriving DecidableEq, Repr

/-- The instruction that starts with `byte` and goes on with the bytes that follow. -/
def decode (byte : UInt8) (following : List UInt8) : Except Fault Instr :=
  match Opcode.ofByte? byte with
  | none => .error (.unknown byte)
  | some op =>
    let operands := following.take op.operandSize
    if operands.length < op.operandSize then .error (.cut op operands)
    else .ok (ofOperands op operands)

theorem ofOperands_operands (i : Instr) : ofOperands i.opcode i.operands = i := by
  have wide (n : UInt32) : UInt32.ofNat (LittleEndian.decode (LittleEndian.encode 4 n.toNat)) = n := by
    rw [LittleEndian.decode_encode, Nat.mod_eq_of_lt (by simpa using n.toNat_lt), UInt32.ofNat_toNat]
  have narrow (n : UInt16) :
      UInt16.ofNat (LittleEndian.decode (LittleEndian.encode 2 n.toNat)) = n := by
    rw [LittleEndian.decode_encode, Nat.mod_eq_of_lt (by simpa using n.toNat_lt), UInt16.ofNat_toNat]
  have take (k n : Nat) (more : List UInt8) :
      (LittleEndian.encode k n ++ more).take k = LittleEndian.encode k n := by
    simp
  have whole (k n : Nat) : (LittleEndian.encode k n).take k = LittleEndian.encode k n := by
    simp [List.take_of_length_le]
  have behind (k n : Nat) (more : List UInt8) : (LittleEndian.encode k n ++ more).drop k = more := by
    simp
  cases i
  all_goals simp only [opcode, operands, ofOperands, take, whole, behind, wide, narrow]
  all_goals rfl

theorem decode_encode (i : Instr) (following : List UInt8) :
    decode i.opcode.byte (i.operands ++ following) = .ok i := by
  simp [decode, Opcode.ofByte?_byte, ← length_operands, ofOperands_operands]

/-- The instruction at an offset of a method's code; `none` at and behind the end. No instruction is
longer than seven bytes. -/
def at? (code : Array UInt8) (offset : Nat) : Option (Except Fault Instr) :=
  code[offset]?.map fun byte ↦ decode byte (code.extract (offset + 1) (offset + 7)).toList

end Instr

end BuildScript
