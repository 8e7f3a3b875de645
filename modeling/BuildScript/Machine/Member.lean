import BuildScript.Machine.RunError
import BuildScript.Text.Blank
import BuildScript.Text.LetterCase
import BuildScript.Text.Segments

/-!
# Members of values

The methods and properties that strings, lists and classes have without any class being loaded.
-/

namespace BuildScript

/-- Whether `part` stands somewhere in `text`. -/
def isInfix (part : List Char) : List Char → Bool
  | [] => part.isEmpty
  | c :: cs => part.isPrefixOf (c :: cs) || isInfix part cs

/-- The part of a binary name behind its last dot or dollar sign. -/
def simpleName (name : String) : String :=
  String.ofList (name.toList.reverse.takeWhile fun c ↦ c != '.' && c != '$').reverse

namespace Value

def element (l : List Value) (index : Int64) : Except RunError Value :=
  let outside := RunError.runtimeError (.indexOutOfBounds index l.length)
  if index < 0 then .error outside
  else
    match l[index.toInt.toNat]? with
    | some v => .ok v
    | none => .error outside

/-- Calls a method on a value. -/
def invoke (receiver : Value) (name : String) (arguments : List Value) : Except RunError Value :=
  match receiver, name, arguments with
  | null, _, _ => .error (.runtimeError (.nullReceiver name))
  | v, "toString", [] => .ok (str v.text)
  | str s, "toUpperCase", [] => .ok (str (toUpperCase s))
  | str s, "toLowerCase", [] => .ok (str (toLowerCase s))
  | str s, "trim", [] => .ok (str (trimBlanks s))
  | str s, "length", [] | str s, "size", [] => .ok (int (.ofInt s.length))
  | str s, "isEmpty", [] => .ok (bool s.isEmpty)
  | str s, "contains", [str part] => .ok (bool (isInfix part.toList s.toList))
  | str s, "startsWith", [str start] => .ok (bool (start.toList.isPrefixOf s.toList))
  | str s, "endsWith", [str stop] => .ok (bool (stop.toList.isSuffixOf s.toList))
  | list l, "size", [] => .ok (int (.ofInt l.length))
  | list l, "isEmpty", [] => .ok (bool l.isEmpty)
  | list l, "contains", [v] => .ok (bool (l.any fun u ↦ u.equals v))
  | list l, "get", [int index] => element l index
  | classRef c, "getName", [] => .ok (str c)
  | classRef c, "getSimpleName", [] => .ok (str (simpleName c))
  | v, _, _ => .error (.missingMethod v.typeName name arguments.length)

/-- Reads a property of a value. -/
def property (object : Value) (name : String) : Except RunError Value :=
  match object, name with
  | classRef c, "name" => .ok (str c)
  | classRef c, "simpleName" => .ok (str (simpleName c))
  | list l, "empty" => .ok (bool l.isEmpty)
  | str s, "empty" => .ok (bool s.isEmpty)
  | v, _ => .error (.missingProperty name v.typeName)

end Value

end BuildScript
