import BuildScript.Syntax.Tree

/-!
# Class nodes

A class about to be generated, and the checks that it has to pass before.
-/

namespace BuildScript

/-- A method or class that the compiler cannot accept. -/
inductive VerificationFault where
  /-- A script declares a method with the name that its body gets. -/
  | reservedRun (className : String)
  | repeatedMethod (name className : String)
  | duplicateParameter (name method : String)
  /-- A check that was added to those of the compiler. -/
  | custom (message : String)
deriving DecidableEq, Repr

def VerificationFault.message : VerificationFault → String
  | reservedRun className =>
    "The method 'run' in script " ++ className ++ " is reserved for the script body"
  | repeatedMethod name className =>
    "Repetitive method name '" ++ name ++ "' in class '" ++ className ++ "'"
  | duplicateParameter name method =>
    "Duplicate parameter '" ++ name ++ "' in method '" ++ method ++ "'"
  | custom message => message

/-- Errors of compiling one source that have no place in its text. -/
inductive CompileError where
  | tooManyLocals (method : String)
  | tooManyArguments (method : String)
  | verification (fault : VerificationFault)
  /-- An operation that was added to a phase failed. -/
  | operation (message : String)
deriving DecidableEq, Repr

def CompileError.message : CompileError → String
  | tooManyLocals method => "Too many local variables in method " ++ method ++ " (max 65535)"
  | tooManyArguments method => "Too many arguments in call to " ++ method ++ " (max 65535)"
  | verification fault => fault.message
  | operation message => message

structure ClassNode where
  name : String
  superName : Option String
  /-- Whether the class was made from a script's body. -/
  isScript : Bool
  methods : List Method
deriving Repr, Inhabited

namespace ClassNode

/-- The method that holds the body of a script. -/
def runMethod : String := "run"

/-- The class of a script: its methods, and `run` with the statements of its body. -/
def ofScript (name base : String) (script : Script) : ClassNode where
  name
  superName := some base
  isScript := true
  methods := script.methods ++ [⟨runMethod, [], script.statements, ⟨0, 0, 1, 1⟩⟩]

/-- The first name that repeats an earlier one; `seen` are those before. -/
def firstRepeated? (seen : List String) : List String → Option String
  | [] => none
  | n :: ns => if seen.contains n then some n else firstRepeated? (n :: seen) ns

/-- Checks methods in order; `seen` are the names of those before. -/
def verifyMethods (node : ClassNode) (seen : List String) : List Method → Except VerificationFault Unit
  | [] => .ok ()
  | m :: ms =>
    if seen.contains m.name then
      .error (if node.isScript && m.name == runMethod then .reservedRun node.name
        else .repeatedMethod m.name node.name)
    else
      match firstRepeated? [] (m.parameters.map (·.name)) with
      | some name => .error (.duplicateParameter name m.name)
      | none => verifyMethods node (m.name :: seen) ms

/-- Method names have to be distinct, and so do the parameters of each method. -/
def verify (node : ClassNode) : Except VerificationFault Unit := verifyMethods node [] node.methods

end ClassNode

end BuildScript
