import BuildScript.Bytecode.Opcode
import BuildScript.Machine.Value

/-!
# Errors of running scripts
-/

namespace BuildScript

/-- The class that every script class extends. -/
def scriptClassName : String := "groovy.lang.Script"

/-- An operation on values of the wrong types, which are given by name. -/
inductive TypeFault where
  | unsupported (op : Arithmetic) (left right : String)
  | incomparable (left right : String)
  | negation (operand : String)
deriving DecidableEq, Repr

def TypeFault.message : TypeFault → String
  | unsupported op left right =>
    (Opcode.arithmetic op).name ++ " not supported between " ++ left ++ " and " ++ right
  | incomparable left right => "cannot compare " ++ left ++ " with " ++ right
  | negation operand => "cannot negate " ++ operand

inductive ArithmeticFault where
  | overflow | divisionByZero | notANumber
deriving DecidableEq, Repr

def ArithmeticFault.message : ArithmeticFault → String
  | overflow => "integer overflow"
  | divisionByZero => "Division by zero"
  | notANumber => "comparison with NaN"

inductive RuntimeFault where
  | nullReceiver (method : String)
  | indexOutOfBounds (index : Int64) (length : Nat)
  /-- An instruction whose operands are cut off. -/
  | codeEnds (offset : Nat)
  | constantIndex (index : UInt32)
  | jumpOutside (target : Int) (method : String)
deriving DecidableEq, Repr

def RuntimeFault.message : RuntimeFault → String
  | nullReceiver method => "Cannot invoke method " ++ method ++ "() on null object"
  | indexOutOfBounds index length =>
    "Index " ++ toString index.toInt ++ " out of bounds for length " ++ toString length
  | codeEnds offset => "Unexpected end of bytecode at offset " ++ toString offset
  | constantIndex index => "invalid constant index " ++ toString index.toNat
  | jumpOutside target method => "jump to " ++ toString target ++ " outside of " ++ method

inductive RunError where
  | stackOverflow
  | stackUnderflow
  | invalidOpcode (byte : UInt8)
  /-- No method of that name takes that many arguments. -/
  | missingMethod (receiver method : String) (count : Nat)
  | missingProperty (name owner : String)
  | typeError (fault : TypeFault)
  | arithmetic (fault : ArithmeticFault)
  | notAScript (className : String)
  | runtimeError (fault : RuntimeFault)
deriving DecidableEq, Repr

def RunError.message : RunError → String
  | stackOverflow => "Stack overflow"
  | stackUnderflow => "Stack underflow"
  | invalidOpcode byte => "Invalid opcode: " ++ toString byte.toNat
  | missingMethod receiver method count =>
    "No signature of method: " ++ receiver ++ "." ++ method ++ "() is applicable for " ++
      toString count ++ " argument(s)"
  | missingProperty name owner => "No such property: " ++ name ++ " for " ++ owner
  | typeError fault => "Type error: " ++ fault.message
  | arithmetic fault => "Arithmetic error: " ++ fault.message
  | notAScript className => className ++ " is not a script class"
  | runtimeError fault => "Runtime error: " ++ fault.message

/-- Why a run ends without a value. -/
inductive Failure where
  | error (e : RunError)
  /-- The machine itself gives up, which no script can observe. -/
  | crash
deriving DecidableEq, Repr

end BuildScript
