import BuildScript.Bytecode.Instr
import BuildScript.Machine.Class
import BuildScript.Machine.Member
import BuildScript.Machine.Operators

/-!
# Execution

A stack machine. Every running method has a frame with its locals and its operand stack; calls of
compiled methods push a frame, calls of native methods happen in one step.

## Design

`step` is a function on states and it never loops, so a run of any length, also one that never
ends, is a sequence of steps. `run` takes at most a given number of them.

The code is not trusted: a frame that runs a broken instruction, underflows its stack or names a
missing constant ends the run with an error.
-/

namespace BuildScript

/-- How many compiled methods may be active at once. -/
def maxCallDepth : Nat := 256

structure Frame where
  method : CompiledMethod
  constants : ConstantPool
  /-- The offset of the next instruction. -/
  offset : Nat
  locals : Array Value
  /-- The operands, topmost first. -/
  stack : List Value
deriving Inhabited

namespace Frame

/-- The frame of a call: the arguments stand in the first locals, the others are null. -/
def enter (method : CompiledMethod) (constants : ConstantPool) (arguments : List Value) : Frame where
  method
  constants
  offset := 0
  locals :=
    let count := method.localCount.toNat
    (arguments.take count).toArray ++ Array.replicate (count - arguments.length) Value.null
  stack := []

def push (f : Frame) (v : Value) : Frame := { f with stack := v :: f.stack }

end Frame

/-- What one instruction does to a frame. -/
inductive Effect where
  /-- The method goes on. -/
  | continue (f : Frame) (s : ScriptState)
  /-- The method calls a method of the script and waits for the result. -/
  | call (name : String) (arguments : List Value) (f : Frame) (s : ScriptState)
  | return (v : Value) (s : ScriptState)
  | fail (e : Failure) (s : ScriptState)

namespace Frame

def error (e : RunError) (s : ScriptState) : Effect := .fail (.error e) s

/-- Goes on with the string of the constant pool at an index. -/
def withString (f : Frame) (s : ScriptState) (index : UInt32) (k : String → Effect) : Effect :=
  match f.constants.getString? index with
  | some name => k name
  | none => error (.runtimeError (.constantIndex index)) s

/-- Goes on with the topmost operand, which is taken off the stack. -/
def withTop (f : Frame) (s : ScriptState) (k : Value → Frame → Effect) : Effect :=
  match f.stack with
  | v :: stack => k v { f with stack }
  | [] => error .stackUnderflow s

/-- Goes on with the `n` topmost operands in the order in which they were pushed. -/
def withTops (f : Frame) (s : ScriptState) (n : Nat) (k : List Value → Frame → Effect) : Effect :=
  match LittleEndian.split? n f.stack with
  | some (tops, stack) => k tops.reverse { f with stack }
  | none => error .stackUnderflow s

/-- Pushes a result, or fails. -/
def pushResult (f : Frame) (s : ScriptState) : Except Failure Value → Effect
  | .ok v => .continue (f.push v) s
  | .error e => .fail e s

def pushConstant (f : Frame) (s : ScriptState) (index : UInt32) (v : Option Value) : Effect :=
  match v with
  | some v => .continue (f.push v) s
  | none => error (.runtimeError (.constantIndex index)) s

/-- Goes to an offset of the code or its end. -/
def jump (f : Frame) (s : ScriptState) (target : Int) : Effect :=
  if target < 0 ∨ (f.method.code.size : Int) < target then
    error (.runtimeError (.jumpOutside target f.method.name)) s
  else .continue { f with offset := target.toNat } s

/-- Runs one instruction; the frame's offset is already that of the next one in line. -/
def execute (className : String) (f : Frame) (s : ScriptState) : Instr → Effect
  | .nop => .continue f s
  | .pop => f.withTop s fun _ f ↦ .continue f s
  | .dup => f.withTop s fun v f ↦ .continue ((f.push v).push v) s
  | .pushNull => .continue (f.push .null) s
  | .pushTrue => .continue (f.push (.bool true)) s
  | .pushFalse => .continue (f.push (.bool false)) s
  | .pushInt i => f.pushConstant s i ((f.constants.getInteger? i).map .int)
  | .pushFloat i => f.pushConstant s i ((f.constants.getFloat? i).map .float)
  | .pushStr i => f.withString s i fun t ↦ .continue (f.push (.str t)) s
  | .pushClass i => f.withString s i fun name ↦ .continue (f.push (.classRef name)) s
  | .loadLocal slot =>
    match f.locals[slot.toNat]? with
    | some v => .continue (f.push v) s
    | none => error .stackUnderflow s
  | .storeLocal slot =>
    f.withTop s fun v f ↦
      if slot.toNat < f.locals.size then
        .continue { f with locals := f.locals.setIfInBounds slot.toNat v } s
      else error .stackUnderflow s
  | .loadVar i =>
    f.withString s i fun name ↦
      match s.binding.get? name with
      | some v => .continue (f.push v) s
      | none => error (.missingProperty name className) s
  | .storeVar i =>
    f.withString s i fun name ↦
      f.withTop s fun v f ↦ .continue f { s with binding := s.binding.set name v }
  | .getProperty i =>
    f.withString s i fun name ↦
      f.withTop s fun v f ↦ f.pushResult s ((v.property name).mapError .error)
  | .arithmetic op =>
    f.withTop s fun right f ↦ f.withTop s fun left f ↦ f.pushResult s (left.combine op right)
  | .negate => f.withTop s fun v f ↦ f.pushResult s v.negate
  | .compare op =>
    f.withTop s fun right f ↦ f.withTop s fun left f ↦ f.pushResult s (left.compareBy op right)
  | .not => f.withTop s fun v f ↦ .continue (f.push (.bool !v.isTruthy)) s
  | .jump kind distance =>
    let target : Int := f.offset + distance.toInt
    match kind with
    | .always => f.jump s target
    | .ifFalse => f.withTop s fun v f ↦ if v.isTruthy then .continue f s else f.jump s target
    | .ifTrue => f.withTop s fun v f ↦ if v.isTruthy then f.jump s target else .continue f s
  | .invokeMethod i count =>
    f.withString s i fun name ↦
      f.withTops s count.toNat fun arguments f ↦ .call name arguments f s
  | .invokeVirtual i count =>
    f.withString s i fun name ↦
      f.withTops s count.toNat fun arguments f ↦
        f.withTop s fun receiver f ↦
          f.pushResult s ((receiver.invoke name arguments).mapError .error)
  | .newList count => f.withTops s count.toNat fun l f ↦ .continue (f.push (.list l)) s
  | .return => f.withTop s fun v _ ↦ .return v s
  | .returnNull => .return .null s

/-- What an instruction with cut-off operands does. A call whose argument count is cut off has its
name looked up first. -/
def executeCut (f : Frame) (s : ScriptState) (op : Opcode) (present : List UInt8) : Effect :=
  let ends (offset : Nat) : Effect := error (.runtimeError (.codeEnds offset)) s
  match LittleEndian.split? 4 present with
  | some (name, _) =>
    if op == .invokeMethod || op == .invokeVirtual then
      f.withString s (LittleEndian.decode name).toUInt32 fun _ ↦ ends (f.offset + 5)
    else ends (f.offset + 1)
  | none => ends (f.offset + 1)

/-- Fetches the next instruction and runs it. Running past the end of the code returns null. -/
def step (className : String) (f : Frame) (s : ScriptState) : Effect :=
  match Instr.at? f.method.code f.offset with
  | none => .return .null s
  | some (.error (.unknown byte)) => error (.invalidOpcode byte) s
  | some (.error (.cut op present)) => f.executeCut s op present
  | some (.ok i) => { f with offset := f.offset + i.size }.execute className s i

end Frame

/-! ## Calls -/

/-- The running frames, innermost first, and what they can change. -/
structure Execution where
  frame : Frame
  callers : List Frame
  state : ScriptState

/-- The end of a run: a value or a failure, and what was changed until then. -/
structure Outcome where
  result : Except Failure Value
  state : ScriptState

/-- Where a call leads. -/
inductive Progress where
  | running (e : Execution)
  | finished (o : Outcome)

namespace Execution

/-- Gives the result of a call to the innermost frame, or ends the run if there is none. -/
def resume (frames : List Frame) (s : ScriptState) (v : Value) : Progress :=
  match frames with
  | [] => .finished ⟨.ok v, s⟩
  | f :: callers => .running ⟨f.push v, callers, s⟩

/-- Calls a method of the script on behalf of the given frames, innermost first. -/
def call (c : Class) (name : String) (arguments : List Value) (frames : List Frame)
    (s : ScriptState) : Progress :=
  let fail (e : RunError) : Progress := .finished ⟨.error (.error e), s⟩
  match c.findMethod? name with
  | none => fail (.missingMethod c.name name arguments.length)
  | some (.native run) =>
    match run c.name arguments s with
    | (.ok v, s) => resume frames s v
    | (.error e, s) => .finished ⟨.error (.error e), s⟩
  | some (.compiled _ _ method constants) =>
    if method.paramCount.toNat ≠ arguments.length then
      fail (.missingMethod c.name name arguments.length)
    else if maxCallDepth ≤ frames.length then fail .stackOverflow
    else .running ⟨.enter method constants arguments, frames, s⟩

def step (c : Class) (e : Execution) : Progress :=
  match e.frame.step c.name e.state with
  | .continue f s => .running { e with frame := f, state := s }
  | .call name arguments f s => call c name arguments (f :: e.callers) s
  | .return v s => resume e.callers s v
  | .fail failure s => .finished ⟨.error failure, s⟩

/-- Takes at most `fuel` steps; `none` if the run needs more. -/
def run (c : Class) : Nat → Progress → Option Outcome
  | _, .finished o => some o
  | 0, .running _ => none
  | fuel + 1, .running e => run c fuel (e.step c)

end Execution

namespace Class

/-- Calls a method of the class from outside, in at most `fuel` steps. -/
def invoke (c : Class) (fuel : Nat) (name : String) (arguments : List Value) (s : ScriptState) :
    Option Outcome :=
  Execution.run c fuel (Execution.call c name arguments [] s)

/-- A class can be run as a script if it extends the script class. -/
def asScript (c : Class) : Except RunError Class :=
  if c.descendsFrom scriptClassName then .ok c else .error (.notAScript c.name)

end Class

end BuildScript
