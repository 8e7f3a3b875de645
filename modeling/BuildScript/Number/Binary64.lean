import BuildScript.Number.Shortest

/-!
# Double precision numbers

`Binary64` is a double given by its bit pattern. Keeping the pattern, rather than a machine float,
makes every double a distinct value: the payload of a NaN and the sign of a zero survive storage,
and equality of `Binary64` is equality of bits. Arithmetic goes through `Float`; the remainder,
which `Float` lacks, is computed exactly.
-/

namespace BuildScript

/-- A double precision number, identified with its 64 bits. -/
structure Binary64 where
  bits : UInt64
deriving DecidableEq, Repr, Inhabited

namespace Binary64

def ofFloat (x : Float) : Binary64 := ⟨x.toBits⟩

def toFloat (x : Binary64) : Float := Float.ofBits x.bits

/-- The eleven exponent bits. -/
def biasedExponent (x : Binary64) : Nat := ((x.bits >>> 52) &&& 0x7FF).toNat

/-- The fifty-two fraction bits. -/
def fraction (x : Binary64) : Nat := (x.bits &&& 0xFFFFFFFFFFFFF).toNat

def isNegative (x : Binary64) : Bool := x.bits >>> 63 != 0

def isNaN (x : Binary64) : Bool := x.biasedExponent == 0x7FF && x.fraction != 0

def isInfinite (x : Binary64) : Bool := x.biasedExponent == 0x7FF && x.fraction == 0

def isZero (x : Binary64) : Bool := x.biasedExponent == 0 && x.fraction == 0

def nan : Binary64 := ⟨0x7FF8000000000000⟩

def infinity : Binary64 := ⟨0x7FF0000000000000⟩

def zero : Binary64 := ⟨0⟩

/-- The leading bit of a significand, which a normal number does not store. -/
def hiddenBit : Nat := 1 <<< 52

/-- The magnitude of a finite number. -/
def toDyadic (x : Binary64) : Dyadic :=
  let e := x.biasedExponent
  let f := x.fraction
  if e == 0 then ⟨f, -1074, false⟩ else ⟨hiddenBit + f, (e : Int) - 1075, f == 0 && e > 1⟩

/-- The double with the given sign and magnitude `m * 2 ^ q`, for a magnitude that is exactly
representable and below `2 ^ 1024`. -/
def ofScaled (negative : Bool) (m : Nat) (q : Int) : Binary64 :=
  let sign : UInt64 := if negative then 0x8000000000000000 else 0
  if m == 0 then ⟨sign⟩
  else
    -- bring the significand to 53 bits, or to the subnormal grid
    let exponent := max ((m.log2 : Int) - 52 + q) (-1074)
    let shift := exponent - q
    let s := if 0 ≤ shift then m >>> shift.toNat else m <<< (-shift).toNat
    if s < hiddenBit then ⟨sign ||| s.toUInt64⟩
    else ⟨sign ||| ((exponent + 1075).toNat.toUInt64 <<< 52) ||| (s - hiddenBit).toUInt64⟩

/-! ### Arithmetic -/

def ofInt (n : Int) : Binary64 := ofFloat (Float.ofInt n)

def add (x y : Binary64) : Binary64 := ofFloat (x.toFloat + y.toFloat)

def sub (x y : Binary64) : Binary64 := ofFloat (x.toFloat - y.toFloat)

def mul (x y : Binary64) : Binary64 := ofFloat (x.toFloat * y.toFloat)

def div (x y : Binary64) : Binary64 := ofFloat (x.toFloat / y.toFloat)

/-- Flips the sign bit, of zeros and NaNs too. -/
def neg (x : Binary64) : Binary64 := ⟨x.bits ^^^ 0x8000000000000000⟩

/-- The remainder of division truncated toward zero. It has the sign of `x` and is exact. -/
def rem (x y : Binary64) : Binary64 :=
  if x.isNaN || y.isNaN || x.isInfinite || y.isZero then nan
  else if y.isInfinite then x
  else
    let a := x.toDyadic
    let b := y.toDyadic
    let q := min a.exponent b.exponent
    let m := a.significand <<< (a.exponent - q).toNat
    let n := b.significand <<< (b.exponent - q).toNat
    ofScaled x.isNegative (m % n) q

/-! ### Comparison -/

/-- Numeric equality: zeros of either sign are equal, and a NaN equals nothing. -/
def equals (x y : Binary64) : Bool := x.toFloat == y.toFloat

def less (x y : Binary64) : Bool := decide (x.toFloat < y.toFloat)

/-! ### Text -/

/-- The fewest digits that read back, in positional notation whatever the magnitude. -/
def text (x : Binary64) : String :=
  if x.isNaN then "NaN"
  else
    let magnitude :=
      if x.isInfinite then "inf"
      else if x.isZero then "0"
      else (Decimal.shortest x.toDyadic).positional
    if x.isNegative then "-" ++ magnitude else magnitude

/-- The double nearest to `digits * 10 ^ exponent`, ties to even. Exponents beyond the range of
doubles are decided without computing the power. -/
def ofDecimal (digits : Nat) (exponent : Int) : Binary64 :=
  let magnitude := exponent + (Nat.toDigits 10 digits).length
  if digits == 0 || magnitude < -400 then zero
  else if 400 < magnitude then infinity
  else ofFloat (Float.ofScientific digits (exponent < 0) exponent.natAbs)

end Binary64

end BuildScript
