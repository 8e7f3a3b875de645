import BuildScript.Syntax.Tree

/-!
# Values

The dynamically typed values that scripts compute with.
-/

namespace BuildScript

inductive Value where
  | null
  | bool (value : Bool)
  | int (value : Int64)
  | float (value : Binary64)
  | str (value : String)
  | list (elements : List Value)
  /-- A class, by binary name. -/
  | classRef (name : String)
deriving Repr, Inhabited

namespace Value

/-- The value that a literal denotes. -/
def ofLiteral : Literal → Value
  | .null => null
  | .bool b => bool b
  | .int n => int n
  | .float x => float x
  | .str s => str s

/-- What counts as true in a condition: everything but null, false, the zeros, the empty string and
the empty list. -/
def isTruthy : Value → Bool
  | null => false
  | bool b => b
  | int n => n != 0
  | float x => !x.equals .zero
  | str s => !s.isEmpty
  | list l => !l.isEmpty
  | classRef _ => true

def isNull : Value → Bool
  | null => true
  | _ => false

/-- The binary name of the value's class. -/
def typeName : Value → String
  | null => "null"
  | bool _ => "java.lang.Boolean"
  | int _ => "java.lang.Integer"
  | float _ => "java.math.BigDecimal"
  | str _ => "java.lang.String"
  | list _ => "java.util.ArrayList"
  | classRef _ => "java.lang.Class"

/-- The number that a numeric value is, rounded if it is an integer. -/
def toFloat? : Value → Option Binary64
  | int n => some (.ofInt n.toInt)
  | float x => some x
  | _ => none

mutual

/-- Equality as scripts see it: integers are compared exactly, an integer and a float as floats. -/
def equals : Value → Value → Bool
  | null, null => true
  | bool a, bool b => a == b
  | int a, int b => a == b
  | str a, str b => a == b
  | list a, list b => allEqual a b
  | classRef a, classRef b => a == b
  | a, b =>
    match a.toFloat?, b.toFloat? with
    | some x, some y => x.equals y
    | _, _ => false

def allEqual : List Value → List Value → Bool
  | [], [] => true
  | a :: as, b :: bs => equals a b && allEqual as bs
  | _, _ => false

end

mutual

/-- The value as it is printed. -/
def text : Value → String
  | null => "null"
  | bool b => if b then "true" else "false"
  | int n => toString n.toInt
  | float x => x.text
  | str s => s
  | list [] => "[]"
  | list (v :: vs) => "[" ++ (v.text ++ textOfRest vs)
  | classRef name => "class " ++ name

/-- The elements of a list behind the first one, and the closing bracket. -/
def textOfRest : List Value → String
  | [] => "]"
  | v :: vs => ", " ++ (v.text ++ textOfRest vs)

end

end Value

end BuildScript
