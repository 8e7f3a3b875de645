import Std.Data.HashSet
import BuildScript.Bytecode.ClassFile
import BuildScript.Bytecode.Instr

/-!
# Verification

Whether a class file is well formed: a known header, distinct method names, and code that is a
sequence of complete instructions whose operands refer to existing constants, locals and
instructions, and whose last instruction never falls through.

A method is first read as a whole, then its instructions are checked in order, so a broken
instruction anywhere is reported before a bad operand.
-/

namespace BuildScript

/-- What is wrong with the header of a class file. -/
inductive HeaderFault where
  | wrongMagic
  | wrongVersion (found : UInt32)
  | emptyName
deriving DecidableEq, Repr

def HeaderFault.message : HeaderFault → String
  | wrongMagic => "invalid magic number"
  | wrongVersion found => "unsupported version " ++ toString found.toNat
  | emptyName => "empty class name"

inductive VerifyError where
  | classValidation (fault : HeaderFault)
  | invalidOpcode (method : String) (byte : UInt8) (offset : Nat)
  | truncatedInstruction (method : String) (op : Opcode) (offset : Nat)
  | invalidJumpTarget (method : String) (target : Int) (offset : Nat)
  | invalidConstantRef (method : String) (index : UInt32) (offset : Nat)
  | invalidLocalRef (method : String) (slot count : UInt16) (offset : Nat)
  | fallOffEnd (method : String)
  | paramsExceedLocals (method : String)
  | duplicateMethod (name : String)
deriving DecidableEq, Repr

namespace VerifyError

def message : VerifyError → String
  | classValidation fault => "Class validation error: " ++ fault.message
  | invalidOpcode method byte offset =>
    "Invalid opcode " ++ Digits.hex byte.toNat ++ place method offset
  | truncatedInstruction method op offset => "Truncated instruction " ++ op.name ++ place method offset
  | invalidJumpTarget method target offset =>
    "Invalid jump target " ++ toString target ++ place method offset
  | invalidConstantRef method index offset =>
    "Invalid constant pool reference: index " ++ toString index.toNat ++ place method offset
  | invalidLocalRef method slot count offset =>
    "Invalid local variable reference: index " ++ toString slot.toNat ++ " (max " ++
      toString count.toNat ++ ")" ++ place method offset
  | fallOffEnd method => "Execution falls off end of " ++ method
  | paramsExceedLocals method => "Method " ++ method ++ " declares more parameters than locals"
  | duplicateMethod name => "Duplicate method " ++ name
where
  /-- Where in the code of which method. -/
  place (method : String) (offset : Nat) : String := " in " ++ method ++ " at offset " ++ toString offset

end VerifyError

/-- An instruction and the offset of its first byte. -/
structure Placed where
  offset : Nat
  instr : Instr
deriving DecidableEq, Repr

namespace Placed

/-- The offset of the next instruction in line. -/
def next (p : Placed) : Nat := p.offset + p.instr.size

end Placed

namespace CompiledMethod

/-- The instructions from an offset on, behind those already read, which come last first. -/
def instructionsFrom (m : CompiledMethod) (offset : Nat) (done : List Placed) :
    Except VerifyError (List Placed) :=
  match Instr.at? m.code offset with
  | none => .ok done.reverse
  | some (.error (.unknown byte)) => .error (.invalidOpcode m.name byte offset)
  | some (.error (.cut op _)) => .error (.truncatedInstruction m.name op offset)
  | some (.ok instr) =>
    if offset < m.code.size then
      instructionsFrom m (offset + instr.size) (⟨offset, instr⟩ :: done)
    else .ok done.reverse
termination_by m.code.size - offset
decreasing_by
  simp only [Instr.size]
  omega

/-- The method's code read from its start, one instruction behind the other. -/
def instructions (m : CompiledMethod) : Except VerifyError (List Placed) :=
  m.instructionsFrom 0 []

end CompiledMethod

namespace ClassFile

def checkConstant (m : CompiledMethod) (p : Placed) (index : UInt32) (count : Nat) :
    Except VerifyError Unit :=
  if index.toNat < count then .ok () else .error (.invalidConstantRef m.name index p.offset)

/-- Checks the operands of one instruction; `starts` are the offsets of all. -/
def checkOperands (pool : ConstantPool) (m : CompiledMethod) (starts : Std.HashSet Nat)
    (p : Placed) : Except VerifyError Unit :=
  match p.instr with
  | .pushInt i => checkConstant m p i pool.integers.size
  | .pushFloat i => checkConstant m p i pool.floats.size
  | .pushStr i | .pushClass i | .loadVar i | .storeVar i | .getProperty i
  | .invokeMethod i _ | .invokeVirtual i _ => checkConstant m p i pool.strings.size
  | .loadLocal slot | .storeLocal slot =>
    if slot < m.localCount then .ok ()
    else .error (.invalidLocalRef m.name slot m.localCount p.offset)
  | .jump _ distance =>
    let target : Int := p.next + distance.toInt
    if 0 ≤ target && starts.contains target.toNat then .ok ()
    else .error (.invalidJumpTarget m.name target p.offset)
  | _ => .ok ()

def verifyMethod (pool : ConstantPool) (m : CompiledMethod) : Except VerifyError Unit := do
  if m.localCount < m.paramCount then throw (.paramsExceedLocals m.name)
  let placed ← m.instructions
  let starts := Std.HashSet.ofList (placed.map (·.offset))
  placed.forM (checkOperands pool m starts)
  match placed.getLast? with
  | some last => if last.instr.opcode.isTerminator then return else throw (.fallOffEnd m.name)
  | none => throw (.fallOffEnd m.name)

/-- Checks methods in order; `seen` are the names of those before. -/
def verifyMethods (pool : ConstantPool) (seen : List String) :
    List CompiledMethod → Except VerifyError Unit
  | [] => .ok ()
  | m :: ms => do
    if seen.contains m.name then throw (.duplicateMethod m.name)
    verifyMethod pool m
    verifyMethods pool (m.name :: seen) ms

/-- Accepts well-formed classes and names the first fault of others. -/
def verify (c : ClassFile) : Except VerifyError Unit := do
  if c.magic != standardMagic then throw (.classValidation .wrongMagic)
  if c.version != currentVersion then throw (.classValidation (.wrongVersion c.version))
  if c.name.isEmpty then throw (.classValidation .emptyName)
  verifyMethods c.constants [] c.methods

end ClassFile

end BuildScript
