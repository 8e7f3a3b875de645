import BuildScript.Compile.ClassNode
import BuildScript.Machine.Execution

/-!
# The meaning of source

What a class means, said on its syntax trees: no instructions, no slots, no jumps. Evaluation is a
recursion over the tree, and three things can come of it. It yields something, it fails, or it runs
out of fuel; fuel is only spent by loops.

## Names

Parameters and all names that `def` declares anywhere in the body are locals of the whole method.
They are null from the start, and `def x` without a value makes `x` null each time it runs. Every
other name is a variable of the binding.

## Classes without source

A superclass may be native or may come as a class file. Native methods are functions and are
applied; the code of a class file is run as it stands, and its calls are evaluated.
-/

namespace BuildScript

/-! ## Evaluation -/

/-- The locals of a method, and what it can change beyond them. -/
structure Activation where
  locals : Binding
  script : ScriptState

/-- What comes of evaluating something. -/
inductive Evaluation (α : Type) where
  | done (a : α) (s : Activation)
  | failed (e : Failure) (s : ScriptState)
  /-- The fuel did not suffice. -/
  | unfinished

def EvalM (α : Type) : Type := Activation → Evaluation α

/-- How a statement ends. -/
inductive Completion where
  | normal
  | returned (v : Value)

namespace EvalM

variable {α β : Type}

protected def bind (x : EvalM α) (f : α → EvalM β) : EvalM β := fun s ↦
  match x s with
  | .done a s => f a s
  | .failed e s => .failed e s
  | .unfinished => .unfinished

instance : Monad EvalM where
  pure a := fun s ↦ .done a s
  bind := EvalM.bind

/-- A result that does not depend on the state. -/
def ofExcept (r : Except Failure α) : EvalM α := fun s ↦
  match r with
  | .ok a => .done a s
  | .error e => .failed e s.script

/-- The value of a name. -/
def read (className name : String) : EvalM Value := fun s ↦
  match s.locals.get? name with
  | some v => .done v s
  | none =>
    match s.script.binding.get? name with
    | some v => .done v s
    | none => .failed (.error (.missingProperty name className)) s.script

/-- Gives a name a value. -/
def write (name : String) (v : Value) : EvalM Unit := fun s ↦
  if s.locals.contains name then .done () { s with locals := s.locals.set name v }
  else .done () { s with script := { s.script with binding := s.script.binding.set name v } }

/-- Runs the body for as long as the test finds a true value, but at most `fuel - 1` times. -/
def loop (test : EvalM Value) (body : EvalM Completion) : Nat → EvalM Completion
  | 0 => fun _ ↦ .unfinished
  | fuel + 1 => do
    let v ← test
    if v.isTruthy then
      match ← body with
      | .normal => loop test body fuel
      | .returned v => return .returned v
    else return .normal

end EvalM

/-! ## Operators -/

/-- The truth of the left operand by which the result is known without the right one. -/
def BinaryOp.decidedBy? : BinaryOp → Option Bool
  | and => some false
  | or => some true
  | _ => none

def BinaryOp.apply : BinaryOp → Value → Value → Except Failure Value
  | add, a, b => a.combine .add b
  | subtract, a, b => a.combine .subtract b
  | multiply, a, b => a.combine .multiply b
  | divide, a, b => a.combine .divide b
  | modulo, a, b => a.combine .remainder b
  | equal, a, b => a.compareBy .equal b
  | notEqual, a, b => a.compareBy .notEqual b
  | less, a, b => a.compareBy .less b
  | lessEqual, a, b => a.compareBy .lessEqual b
  | greater, a, b => a.compareBy .greater b
  | greaterEqual, a, b => a.compareBy .greaterEqual b
  | and, a, b => .ok (.bool (a.isTruthy && b.isTruthy))
  | or, a, b => .ok (.bool (a.isTruthy || b.isTruthy))

def UnaryOp.apply : UnaryOp → Value → Except Failure Value
  | negate, v => v.negate
  | not, v => .ok (.bool !v.isTruthy)

/-! ## Expressions and statements -/

/-- What the evaluation of a method needs of the class that runs. -/
structure Host where
  className : String
  /-- Calls a method of the class; `none` if the fuel did not suffice. -/
  call : String → List Value → ScriptState → Option Outcome

def EvalM.call (h : Host) (name : String) (arguments : List Value) : EvalM Value := fun s ↦
  match h.call name arguments s.script with
  | some ⟨.ok v, script⟩ => .done v { s with script }
  | some ⟨.error e, script⟩ => .failed e script
  | none => .unfinished

mutual

def Expr.eval (h : Host) : Expr → EvalM Value
  | .constant value _ => return .ofLiteral value
  | .var name _ => EvalM.read h.className name
  | .classRef name _ => return .classRef name
  | .property object name _ => do
    let v ← object.eval h
    EvalM.ofExcept ((v.property name).mapError .error)
  | .call name arguments _ => do
    let vs ← Expr.evalAll h arguments
    EvalM.call h name vs
  | .invoke receiver name arguments _ => do
    let v ← receiver.eval h
    let vs ← Expr.evalAll h arguments
    EvalM.ofExcept ((v.invoke name vs).mapError .error)
  | .binary op left right _ => do
    let a ← left.eval h
    if op.decidedBy? = some a.isTruthy then return .bool a.isTruthy
    else do
      let b ← right.eval h
      EvalM.ofExcept (op.apply a b)
  | .unary op operand _ => do
    let v ← operand.eval h
    EvalM.ofExcept (op.apply v)
  | .assign target value _ => do
    let v ← value.eval h
    EvalM.write target v
    return v
  | .list elements _ => do
    let vs ← Expr.evalAll h elements
    return .list vs

/-- Evaluates expressions from left to right. -/
def Expr.evalAll (h : Host) : List Expr → EvalM (List Value)
  | [] => return []
  | e :: es => do
    let v ← e.eval h
    let vs ← Expr.evalAll h es
    return v :: vs

end

/-- A missing expression is null. -/
def Expr.evalOptional (h : Host) : Option Expr → EvalM Value
  | none => return .null
  | some e => e.eval h

mutual

def Stmt.eval (h : Host) (fuel : Nat) : Stmt → EvalM Completion
  | .expression e => do
    let _ ← e.eval h
    return .normal
  | .declare name initial _ => do
    let v ← Expr.evalOptional h initial
    EvalM.write name v
    return .normal
  | .ifThen condition body _ => do
    let v ← condition.eval h
    if v.isTruthy then body.eval h fuel else return .normal
  | .ifElse condition body alternative _ => do
    let v ← condition.eval h
    if v.isTruthy then body.eval h fuel else alternative.eval h fuel
  | .loop condition body _ => EvalM.loop (condition.eval h) (body.eval h fuel) fuel
  | .result value _ => do
    let v ← Expr.evalOptional h value
    return .returned v
  | .block body _ => Stmt.evalAll h fuel body

/-- Evaluates statements in order until one of them returns. -/
def Stmt.evalAll (h : Host) (fuel : Nat) : List Stmt → EvalM Completion
  | [] => return .normal
  | s :: ss => do
    match ← s.eval h fuel with
    | .normal => Stmt.evalAll h fuel ss
    | .returned v => return .returned v

end

/-! ## Methods and classes -/

/-- The locals with which a method starts. A parameter that is declared again is one local. -/
def Method.startLocals (m : Method) (arguments : List Value) : Binding where
  pairs := (m.parameters.map (·.name)).zip arguments ++
    (declaredNames m.body).map fun n ↦ (n, .null)

/-- The outcome of a method; its value is null if no statement returns one. -/
def Method.evaluate (h : Host) (fuel : Nat) (m : Method) (arguments : List Value)
    (s : ScriptState) : Option Outcome :=
  match Stmt.evalAll h fuel m.body ⟨m.startLocals arguments, s⟩ with
  | .done .normal s => some ⟨.ok .null, s.script⟩
  | .done (.returned v) s => some ⟨.ok v, s.script⟩
  | .failed e s => some ⟨.error e, s⟩
  | .unfinished => none

/-- The outcome of code without source, which is run in at most `fuel` steps of its own. -/
def Frame.evaluate (h : Host) : Nat → Frame → ScriptState → Option Outcome
  | 0, _, _ => none
  | fuel + 1, f, s =>
    match f.step h.className s with
    | .continue f s => Frame.evaluate h fuel f s
    | .call name arguments f s =>
      match h.call name arguments s with
      | some ⟨.ok v, s⟩ => Frame.evaluate h fuel (f.push v) s
      | some ⟨.error e, s⟩ => some ⟨.error e, s⟩
      | none => none
    | .return v s => some ⟨.ok v, s⟩
    | .fail e s => some ⟨.error e, s⟩

/-- What a class is given as. -/
inductive ClassSource where
  | native (methods : List (String × NativeMethod))
  | tree (node : ClassNode)
  | binary (file : ClassFile)

/-- A method as its class gives it. -/
inductive SourceMethod where
  | native (run : NativeMethod)
  | declared (m : Method)
  | binary (method : CompiledMethod) (constants : ConstantPool)

def ClassSource.method? (source : ClassSource) (name : String) : Option SourceMethod :=
  match source with
  | .native methods => (methods.lookup name).map .native
  | .tree node => (node.methods.find? (·.name == name)).map .declared
  | .binary file => (file.method? name).map fun m ↦ .binary m file.constants

/-- The sources of a class and its superclasses, nearest first. -/
structure Program where
  className : String
  sources : List ClassSource

namespace Program

def method? (p : Program) (name : String) : Option SourceMethod :=
  p.sources.findSome? (·.method? name)

/-- Calls a method, if at most `depth` more calls may be active. A method is only found by its name;
the number of arguments is checked then, and the depth after that. -/
def call (p : Program) (fuel depth : Nat) (name : String) (arguments : List Value)
    (s : ScriptState) : Option Outcome :=
  let fail (e : RunError) : Option Outcome := some ⟨.error (.error e), s⟩
  match p.method? name with
  | none => fail (.missingMethod p.className name arguments.length)
  | some (.native run) =>
    match run p.className arguments s with
    | (.ok v, s) => some ⟨.ok v, s⟩
    | (.error e, s) => some ⟨.error (.error e), s⟩
  | some (.declared m) =>
    if m.parameters.length ≠ arguments.length then
      fail (.missingMethod p.className name arguments.length)
    else
      match depth with
      | 0 => fail .stackOverflow
      | depth + 1 => m.evaluate ⟨p.className, p.call fuel depth⟩ fuel arguments s
  | some (.binary method constants) =>
    if method.paramCount.toNat ≠ arguments.length then
      fail (.missingMethod p.className name arguments.length)
    else
      match depth with
      | 0 => fail .stackOverflow
      | depth + 1 =>
        Frame.evaluate ⟨p.className, p.call fuel depth⟩ fuel (.enter method constants arguments) s

/-- The class as a method sees it that may make calls `depth` deep. -/
def host (p : Program) (fuel depth : Nat) : Host := ⟨p.className, p.call fuel depth⟩

end Program

end BuildScript
