import Std.Data.HashMap
import BuildScript.Bytecode.ClassFile
import BuildScript.Bytecode.Instr
import BuildScript.Compile.ClassNode

/-!
# Code generation

From class nodes to class files. Parameters and all names declared anywhere in a method's body get
local slots; every other name is a variable of the binding. Code of a statement leaves the operand
stack as it was, code of an expression leaves one value more on it.

## Design

Code is a list of instructions until the whole method is there. The code of a construct is put
together from the code of its parts, and a jump's distance is the size of the code it jumps over,
so no jump ever has to be patched. The constant pool is the only state: it grows from method to
method.
-/

namespace BuildScript

/-- The slots of a method's locals. -/
structure Slots where
  byName : Std.HashMap String UInt16 := {}
  count : Nat := 0

namespace Slots

/-- The greatest number of locals, and of arguments of a call. -/
def limit : Nat := 65535

/-- Gives a name the next slot, unless it has one. -/
def add (s : Slots) (method name : String) : Except CompileError Slots :=
  if s.byName.contains name then .ok s
  else if s.count == limit then .error (.tooManyLocals method)
  else .ok ⟨s.byName.insert name s.count.toUInt16, s.count + 1⟩

def slot? (s : Slots) (name : String) : Option UInt16 := s.byName[name]?

end Slots

/-- Generating code extends the constant pool, or fails. -/
abbrev GenM := StateT ConstantPool (Except CompileError)

/-- Bytes of code. -/
def codeSize (code : List Instr) : Nat := code.foldl (fun n i ↦ n + i.size) 0

/-- A jump over `n` bytes. -/
def jumpOver (kind : JumpKind) (n : Nat) : Instr := .jump kind (.ofNat n)

/-- Bytes of a jump. -/
def jumpSize : Nat := 5

namespace GenM

def string (s : String) : GenM UInt32 := modifyGet fun pool ↦ (pool.addString s).swap

def integer (n : Int64) : GenM UInt32 := modifyGet fun pool ↦ (pool.addInteger n).swap

def float (x : Binary64) : GenM UInt32 := modifyGet fun pool ↦ (pool.addFloat x).swap

end GenM

/-- The instruction for an operator that needs both operands; `&&` and `||` are not among them. -/
def BinaryOp.instr? : BinaryOp → Option Instr
  | add => some (.arithmetic .add)
  | subtract => some (.arithmetic .subtract)
  | multiply => some (.arithmetic .multiply)
  | divide => some (.arithmetic .divide)
  | modulo => some (.arithmetic .remainder)
  | equal => some (.compare .equal)
  | notEqual => some (.compare .notEqual)
  | less => some (.compare .less)
  | lessEqual => some (.compare .lessEqual)
  | greater => some (.compare .greater)
  | greaterEqual => some (.compare .greaterEqual)
  | and | or => none

def UnaryOp.instr : UnaryOp → Instr
  | negate => .negate
  | not => .not

namespace Literal

def compile : Literal → GenM Instr
  | null => return .pushNull
  | bool true => return .pushTrue
  | bool false => return .pushFalse
  | int n => return .pushInt (← GenM.integer n)
  | float x => return .pushFloat (← GenM.float x)
  | str s => return .pushStr (← GenM.string s)

end Literal

/-- Stores the topmost value under a name. -/
def compileStore (slots : Slots) (name : String) : GenM Instr :=
  match slots.slot? name with
  | some slot => return .storeLocal slot
  | none => return .storeVar (← GenM.string name)

/-- A short-circuit operator: as soon as an operand decides, the rest is jumped over; either way the
result is a boolean. `decided` is the operand's truth that decides. -/
def shortCircuit (decided : Bool) (left right : List Instr) : List Instr :=
  let leave := if decided then JumpKind.ifTrue else .ifFalse
  let push (b : Bool) : Instr := if b then .pushTrue else .pushFalse
  left ++ jumpOver leave (codeSize right + jumpSize + 1 + jumpSize) ::
    (right ++ [jumpOver leave (1 + jumpSize), push !decided, jumpOver .always 1, push decided])

/-- The number of arguments as an operand. -/
def argumentCount (method : String) (n : Nat) : GenM UInt16 :=
  if n ≤ Slots.limit then return n.toUInt16 else throw (.tooManyArguments method)

mutual

def Expr.compile (slots : Slots) : Expr → GenM (List Instr)
  | .constant value _ => return [← value.compile]
  | .var name _ =>
    match slots.slot? name with
    | some slot => return [.loadLocal slot]
    | none => return [.loadVar (← GenM.string name)]
  | .classRef name _ => return [.pushClass (← GenM.string name)]
  | .property object name _ => do
    let code ← object.compile slots
    return code ++ [.getProperty (← GenM.string name)]
  | .call name arguments _ => do
    let code ← Expr.compileAll slots [] arguments
    let count ← argumentCount name arguments.length
    return code ++ [.invokeMethod (← GenM.string name) count]
  | .invoke receiver name arguments _ => do
    let first ← receiver.compile slots
    let code ← Expr.compileAll slots first.reverse arguments
    let count ← argumentCount name arguments.length
    return code ++ [.invokeVirtual (← GenM.string name) count]
  | .binary op left right _ => do
    let left ← left.compile slots
    let right ← right.compile slots
    match op.instr? with
    | some i => return left ++ (right ++ [i])
    | none => return shortCircuit (op == .or) left right
  | .unary op operand _ => return (← operand.compile slots) ++ [op.instr]
  | .assign target value _ => do
    let code ← value.compile slots
    return code ++ [.dup, ← compileStore slots target]
  | .list elements _ => do
    let code ← Expr.compileAll slots [] elements
    let count ← argumentCount "list literal" elements.length
    return code ++ [.newList count]

/-- Code of expressions from left to right, behind the code `done`, which comes last first. -/
def Expr.compileAll (slots : Slots) (done : List Instr) : List Expr → GenM (List Instr)
  | [] => return done.reverse
  | e :: es => do
    let code ← e.compile slots
    Expr.compileAll slots (code.reverse ++ done) es

end

mutual

def Stmt.compile (slots : Slots) : Stmt → GenM (List Instr)
  | .expression e => return (← e.compile slots) ++ [.pop]
  | .declare name initial _ => do
    let code ←
      match initial with
      | some e => e.compile slots
      | none => pure [.pushNull]
    return code ++ [← compileStore slots name]
  | .ifThen condition body _ => do
    let test ← condition.compile slots
    let body ← body.compile slots
    return test ++ jumpOver .ifFalse (codeSize body) :: body
  | .ifElse condition body alternative _ => do
    let test ← condition.compile slots
    let body ← body.compile slots
    let alternative ← alternative.compile slots
    return test ++ jumpOver .ifFalse (codeSize body + jumpSize) ::
      (body ++ jumpOver .always (codeSize alternative) :: alternative)
  | .loop condition body _ => do
    let test ← condition.compile slots
    let body ← body.compile slots
    let back : Int := codeSize test + jumpSize + codeSize body + jumpSize
    return test ++ jumpOver .ifFalse (codeSize body + jumpSize) ::
      (body ++ [.jump .always (.ofInt (-back))])
  | .result value _ => do
    let code ←
      match value with
      | some e => e.compile slots
      | none => pure [.pushNull]
    return code ++ [.return]
  | .block body _ => Stmt.compileAll slots [] body

/-- Code of statements in order, behind the code `done`, which comes last first. -/
def Stmt.compileAll (slots : Slots) (done : List Instr) : List Stmt → GenM (List Instr)
  | [] => return done.reverse
  | s :: ss => do
    let code ← s.compile slots
    Stmt.compileAll slots (code.reverse ++ done) ss

end

namespace Method

/-- Gives slots to names in order. -/
def addSlots (method : String) (slots : Slots) : List String → Except CompileError Slots
  | [] => .ok slots
  | n :: ns => do addSlots method (← slots.add method n) ns

/-- The method's code. It ends by returning null, so that no run falls off its end. -/
def compile (m : Method) (debug : Bool) : GenM CompiledMethod := do
  let parameters ← addSlots m.name {} (m.parameters.map (·.name))
  let slots ← addSlots m.name parameters (declaredNames m.body)
  let code ← Stmt.compileAll slots [] m.body
  return {
    name := m.name
    paramCount := parameters.count.toUInt16
    localCount := slots.count.toUInt16
    line := if debug then m.span.line else 0
    code := ((code ++ [Instr.returnNull]).flatMap Instr.encode).toArray }

/-- Compiles methods in order, behind those already compiled, which come last first. -/
def compileAll (debug : Bool) (done : List CompiledMethod) : List Method → GenM (List CompiledMethod)
  | [] => return done.reverse
  | m :: ms => do compileAll debug ((← m.compile debug) :: done) ms

end Method

/-- The class file of a class node; lines are kept only with `debug`. -/
def ClassNode.compile (node : ClassNode) (debug : Bool) : Except CompileError ClassFile := do
  let (methods, constants) ← (Method.compileAll debug [] node.methods).run {}
  let script := if node.isScript then ClassFile.scriptFlag else 0
  let lines := if debug then ClassFile.debugFlag else 0
  return { ClassFile.empty node.name node.superName with flags := script ||| lines, constants, methods }

end BuildScript
