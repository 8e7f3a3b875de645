/-!
# Shortest decimals

The decimal with the fewest digits that still identifies a given binary fraction.

A nonnegative double is a `Dyadic`, `significand * 2 ^ exponent`. The reals that round to it form an
interval around it, from halfway to the neighbour below to halfway to the neighbour above; the ends
belong to it exactly when the significand is even. `Decimal.shortest` searches the decimal grids
from coarse to fine. On each grid only the two neighbours of the value have to be tested, since the
interval contains the value: if any grid point lies in it, so does one of these two.

All comparisons are exact, by cross-multiplied naturals.
-/

namespace BuildScript

/-- A nonnegative binary fraction `significand * 2 ^ exponent`. -/
structure Dyadic where
  significand : Nat
  exponent : Int
  /-- The gap to the next smaller double is half the gap to the next larger one. -/
  narrowBelow : Bool
deriving DecidableEq, Repr

/-- A nonnegative decimal `digits * 10 ^ exponent`. -/
structure Decimal where
  digits : Nat
  exponent : Int
deriving DecidableEq, Repr

/-- Compares `a * 10 ^ i` with `n * 2 ^ j`. -/
def compareScaled (a : Nat) (i : Int) (n : Nat) (j : Int) : Ordering :=
  compare ((a * Nat.pow 10 i.toNat) <<< (-j).toNat) ((n * Nat.pow 10 (-i).toNat) <<< j.toNat)

namespace Dyadic

/-- The largest `d` for which `d * 10 ^ i` does not exceed the value. -/
def floorOnGrid (x : Dyadic) (i : Int) : Nat :=
  ((x.significand * Nat.pow 10 (-i).toNat) <<< x.exponent.toNat) /
    (Nat.pow 10 i.toNat <<< (-x.exponent).toNat)

/-- Whether the decimal lies among the reals that round to the value. -/
def readsBack (x : Dyadic) (d : Decimal) : Bool :=
  let low := if x.narrowBelow then 4 * x.significand - 1 else 4 * x.significand - 2
  let high := 4 * x.significand + 2
  let closed := x.significand % 2 == 0
  let atLow := compareScaled d.digits d.exponent low (x.exponent - 2)
  let atHigh := compareScaled d.digits d.exponent high (x.exponent - 2)
  (atLow == .gt || (closed && atLow == .eq)) && (atHigh == .lt || (closed && atHigh == .eq))

/-- The number of decimal digits before the point: the least `k` with value below `10 ^ k`. The
first candidate comes from the binary logarithm and is never too large. -/
def scale (x : Dyadic) : Int :=
  let k := (((x.significand.log2 : Int) + x.exponent) * 30103).fdiv 100000
  let isAbove (k : Int) : Bool := compareScaled 1 k x.significand x.exponent == .gt
  if isAbove k then k else if isAbove (k + 1) then k + 1 else if isAbove (k + 2) then k + 2 else k + 3

/-- The grid point nearest to the value among its two neighbours on the grid `10 ^ i`, provided it
reads back. Of two equally near points the upper one is taken. -/
def nearestOnGrid? (x : Dyadic) (i : Int) : Option Decimal :=
  let below : Decimal := ⟨x.floorOnGrid i, i⟩
  let above : Decimal := ⟨below.digits + 1, i⟩
  match x.readsBack below, x.readsBack above with
  | false, false => none
  | true, false => some below
  | false, true => some above
  | true, true =>
    -- the value against the midpoint of the two
    match compareScaled (2 * below.digits + 1) i (2 * x.significand) x.exponent with
    | .gt => some below
    | _ => some above

end Dyadic

namespace Decimal

/-- The exact decimal expansion of the value. -/
def ofDyadic (x : Dyadic) : Decimal :=
  if 0 ≤ x.exponent then ⟨x.significand <<< x.exponent.toNat, 0⟩
  else ⟨x.significand * Nat.pow 5 (-x.exponent).toNat, x.exponent⟩

/-- Moves trailing zeros of the digits into the exponent, at most `n` of them. -/
def strip : Nat → Decimal → Decimal
  | 0, d => d
  | n + 1, d => if d.digits % 10 == 0 && d.digits != 0 then strip n ⟨d.digits / 10, d.exponent + 1⟩ else d

/-- The decimal with the fewest digits that reads back to the value, and of those the nearest. -/
def shortest (x : Dyadic) : Decimal :=
  let k := x.scale
  match (List.range 17).findSome? fun n ↦ x.nearestOnGrid? (k - (n + 1 : Nat)) with
  | some d => d.strip 17
  | none => ofDyadic x

/-- Positional notation: no exponent, and a point only if there is a fraction. -/
def positional (d : Decimal) : String :=
  let ds := Nat.toDigits 10 d.digits
  if 0 ≤ d.exponent then String.ofList (ds ++ List.replicate d.exponent.toNat '0')
  else
    let places := (-d.exponent).toNat
    if places < ds.length then
      String.ofList (ds.take (ds.length - places) ++ '.' :: ds.drop (ds.length - places))
    else String.ofList ('0' :: '.' :: List.replicate (places - ds.length) '0' ++ ds)

end Decimal

end BuildScript
