import BuildScript.Machine.RunError

/-!
# Operators

Arithmetic and comparison of values. Integer arithmetic is exact: a result that does not fit is an
error. The quotient of two integers is an integer if the division is exact, and a float otherwise.
-/

namespace BuildScript

namespace Value

def overflow : Failure := .error (.arithmetic .overflow)

def divisionByZero : Failure := .error (.arithmetic .divisionByZero)

/-- An integer result, if it fits into 64 bits. -/
def ofInt? (n : Int) : Except Failure Value :=
  if Int64.minValue.toInt ≤ n ∧ n ≤ Int64.maxValue.toInt then .ok (int (.ofInt n))
  else .error overflow

/-- Arithmetic of integers. The remainder that decides whether a division is exact is a crash for
the least integer and minus one, where the quotient does not fit. -/
def ofInts (op : Arithmetic) (a b : Int64) : Except Failure Value :=
  match op with
  | .add => ofInt? (a.toInt + b.toInt)
  | .subtract => ofInt? (a.toInt - b.toInt)
  | .multiply => ofInt? (a.toInt * b.toInt)
  | .divide =>
    if b == 0 then .error divisionByZero
    else if a == Int64.minValue && b == -1 then .error .crash
    else if a.toInt.tmod b.toInt == 0 then ofInt? (a.toInt.tdiv b.toInt)
    else .ok (float ((Binary64.ofInt a.toInt).div (Binary64.ofInt b.toInt)))
  | .remainder =>
    if b == 0 then .error divisionByZero
    else if a == Int64.minValue && b == -1 then .error overflow
    else .ok (int (.ofInt (a.toInt.tmod b.toInt)))

def ofFloats (op : Arithmetic) (x y : Binary64) : Except Failure Value :=
  match op with
  | .add => .ok (float (x.add y))
  | .subtract => .ok (float (x.sub y))
  | .multiply => .ok (float (x.mul y))
  | .divide => if y.equals .zero then .error divisionByZero else .ok (float (x.div y))
  | .remainder => if y.equals .zero then .error divisionByZero else .ok (float (x.rem y))

/-- Arithmetic of numbers; anything else has none. -/
def ofNumbers (op : Arithmetic) (a b : Value) : Except Failure Value :=
  match a, b with
  | int m, int n => ofInts op m n
  | _, _ =>
    match a.toFloat?, b.toFloat? with
    | some x, some y => ofFloats op x y
    | _, _ => .error (.error (.typeError (.unsupported op a.typeName b.typeName)))

/-- Arithmetic. Adding to a string appends the text of the value; so does adding a string to
anything but a list. Adding to a list appends the elements of a list, or the value. -/
def combine (op : Arithmetic) (a b : Value) : Except Failure Value :=
  match op, a, b with
  | .add, str s, v => .ok (str (s ++ v.text))
  | .add, list l, list m => .ok (list (l ++ m))
  | .add, list l, v => .ok (list (l ++ [v]))
  | .add, v, str s => .ok (str (v.text ++ s))
  | op, a, b => ofNumbers op a b

def negate : Value → Except Failure Value
  | int n => ofInt? (-n.toInt)
  | float x => .ok (float x.neg)
  | v => .error (.error (.typeError (.negation v.typeName)))

/-- The order of two numbers or two strings. Strings are ordered by code points. -/
def order (a b : Value) : Except Failure Ordering :=
  match a, b with
  | int m, int n => .ok (compare m.toInt n.toInt)
  | str s, str t => .ok (if s < t then .lt else if s = t then .eq else .gt)
  | _, _ =>
    match a.toFloat?, b.toFloat? with
    | some x, some y =>
      if x.less y then .ok .lt
      else if y.less x then .ok .gt
      else if x.equals y then .ok .eq
      else .error (.error (.arithmetic .notANumber))
    | _, _ => .error (.error (.typeError (.incomparable a.typeName b.typeName)))

def compareBy (op : Comparison) (a b : Value) : Except Failure Value :=
  match op with
  | .equal => .ok (bool (a.equals b))
  | .notEqual => .ok (bool !(a.equals b))
  | .less => (a.order b).map fun o ↦ bool (o == .lt)
  | .lessEqual => (a.order b).map fun o ↦ bool (o != .gt)
  | .greater => (a.order b).map fun o ↦ bool (o == .gt)
  | .greaterEqual => (a.order b).map fun o ↦ bool (o != .lt)

end Value

end BuildScript
