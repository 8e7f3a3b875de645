/-!
# Operation codes

The instruction set of script classes. Every instruction starts with a one-byte code; operands of a
fixed width follow it. The codes fall into groups by their upper half byte.
-/

namespace BuildScript

/-- Arithmetic on the two topmost values. -/
inductive Arithmetic where
  | add | subtract | multiply | divide | remainder
deriving DecidableEq, Repr

/-- Comparison of the two topmost values. -/
inductive Comparison where
  | equal | notEqual | less | lessEqual | greater | greaterEqual
deriving DecidableEq, Repr

/-- When a jump is taken. The conditional ones take the topmost value off the stack. -/
inductive JumpKind where
  | always | ifFalse | ifTrue
deriving DecidableEq, Repr

inductive Opcode where
  | nop | pop | dup
  | pushNull | pushTrue | pushFalse | pushInt | pushFloat | pushStr | pushClass
  | loadLocal | storeLocal | loadVar | storeVar | getProperty
  | arithmetic (op : Arithmetic)
  | negate
  | compare (op : Comparison)
  | not
  | jump (kind : JumpKind)
  | invokeMethod | invokeVirtual
  | newList
  | return | returnNull
deriving DecidableEq, Repr

namespace Opcode

/-- The codes in the order of their bytes. -/
def all : List Opcode :=
  [nop, pop, dup, pushNull, pushTrue, pushFalse, pushInt, pushFloat, pushStr, pushClass,
    loadLocal, storeLocal, loadVar, storeVar, getProperty,
    arithmetic .add, arithmetic .subtract, arithmetic .multiply, arithmetic .divide,
    arithmetic .remainder, negate,
    compare .equal, compare .notEqual, compare .less, compare .lessEqual, compare .greater,
    compare .greaterEqual, not,
    jump .always, jump .ifFalse, jump .ifTrue,
    invokeMethod, invokeVirtual, newList, .return, returnNull]

def byte : Opcode → UInt8
  | nop => 0x00
  | pop => 0x01
  | dup => 0x02
  | pushNull => 0x04
  | pushTrue => 0x05
  | pushFalse => 0x06
  | pushInt => 0x07
  | pushFloat => 0x08
  | pushStr => 0x09
  | pushClass => 0x0A
  | loadLocal => 0x10
  | storeLocal => 0x11
  | loadVar => 0x12
  | storeVar => 0x13
  | getProperty => 0x14
  | arithmetic .add => 0x20
  | arithmetic .subtract => 0x21
  | arithmetic .multiply => 0x22
  | arithmetic .divide => 0x23
  | arithmetic .remainder => 0x24
  | negate => 0x25
  | compare .equal => 0x30
  | compare .notEqual => 0x31
  | compare .less => 0x32
  | compare .lessEqual => 0x33
  | compare .greater => 0x34
  | compare .greaterEqual => 0x35
  | not => 0x36
  | jump .always => 0x40
  | jump .ifFalse => 0x41
  | jump .ifTrue => 0x42
  | invokeMethod => 0x50
  | invokeVirtual => 0x51
  | newList => 0x60
  | .return => 0x70
  | returnNull => 0x71

/-- The code that a byte stands for; most bytes stand for none. -/
def ofByte? (b : UInt8) : Option Opcode :=
  match b.toNat with
  | 0x00 => some nop
  | 0x01 => some pop
  | 0x02 => some dup
  | 0x04 => some pushNull
  | 0x05 => some pushTrue
  | 0x06 => some pushFalse
  | 0x07 => some pushInt
  | 0x08 => some pushFloat
  | 0x09 => some pushStr
  | 0x0A => some pushClass
  | 0x10 => some loadLocal
  | 0x11 => some storeLocal
  | 0x12 => some loadVar
  | 0x13 => some storeVar
  | 0x14 => some getProperty
  | 0x20 => some (arithmetic .add)
  | 0x21 => some (arithmetic .subtract)
  | 0x22 => some (arithmetic .multiply)
  | 0x23 => some (arithmetic .divide)
  | 0x24 => some (arithmetic .remainder)
  | 0x25 => some negate
  | 0x30 => some (compare .equal)
  | 0x31 => some (compare .notEqual)
  | 0x32 => some (compare .less)
  | 0x33 => some (compare .lessEqual)
  | 0x34 => some (compare .greater)
  | 0x35 => some (compare .greaterEqual)
  | 0x36 => some not
  | 0x40 => some (jump .always)
  | 0x41 => some (jump .ifFalse)
  | 0x42 => some (jump .ifTrue)
  | 0x50 => some invokeMethod
  | 0x51 => some invokeVirtual
  | 0x60 => some newList
  | 0x70 => some .return
  | 0x71 => some returnNull
  | _ => none

theorem ofByte?_byte (op : Opcode) : ofByte? op.byte = some op := by
  cases op with
  | arithmetic op => cases op <;> rfl
  | compare op => cases op <;> rfl
  | jump kind => cases kind <;> rfl
  | _ => rfl

def name : Opcode → String
  | nop => "NOP"
  | pop => "POP"
  | dup => "DUP"
  | pushNull => "CONST_NULL"
  | pushTrue => "CONST_TRUE"
  | pushFalse => "CONST_FALSE"
  | pushInt => "CONST_INT"
  | pushFloat => "CONST_FLOAT"
  | pushStr => "CONST_STR"
  | pushClass => "CONST_CLASS"
  | loadLocal => "LOAD_LOCAL"
  | storeLocal => "STORE_LOCAL"
  | loadVar => "LOAD_VAR"
  | storeVar => "STORE_VAR"
  | getProperty => "GET_PROPERTY"
  | arithmetic .add => "ADD"
  | arithmetic .subtract => "SUB"
  | arithmetic .multiply => "MUL"
  | arithmetic .divide => "DIV"
  | arithmetic .remainder => "MOD"
  | negate => "NEG"
  | compare .equal => "EQ"
  | compare .notEqual => "NE"
  | compare .less => "LT"
  | compare .lessEqual => "LE"
  | compare .greater => "GT"
  | compare .greaterEqual => "GE"
  | not => "NOT"
  | jump .always => "JMP"
  | jump .ifFalse => "JMP_IF_FALSE"
  | jump .ifTrue => "JMP_IF_TRUE"
  | invokeMethod => "INVOKE_METHOD"
  | invokeVirtual => "INVOKE_VIRTUAL"
  | newList => "NEW_LIST"
  | .return => "RETURN"
  | returnNull => "RETURN_NULL"

def ofName? (s : String) : Option Opcode := all.find? fun op ↦ op.name == s

/-- Bytes of operands behind the code: a constant's index or a jump's distance takes four, a slot
or a count two. -/
def operandSize : Opcode → Nat
  | pushInt | pushFloat | pushStr | pushClass | loadVar | storeVar | getProperty | jump _ => 4
  | loadLocal | storeLocal | newList => 2
  | invokeMethod | invokeVirtual => 6
  | _ => 0

def isJump : Opcode → Bool
  | jump _ => true
  | _ => false

def isReturn : Opcode → Bool
  | .return | returnNull => true
  | _ => false

/-- Whether the next instruction in line is never reached from this one. -/
def isTerminator : Opcode → Bool
  | jump .always | .return | returnNull => true
  | _ => false

end Opcode

end BuildScript
