/-!
# Numerals

Hexadecimal numerals with lower case digits.
-/

namespace BuildScript.Digits

/-- The hexadecimal digits of a number, lowest first to `k` digits, put in front of `done`. -/
def hexDigits : Nat → Nat → List Char → List Char
  | 0, _, done => done
  | k + 1, n, done => hexDigits k (n / 16) (Nat.digitChar (n % 16) :: done)

/-- The lowest `k` hexadecimal digits of a number. -/
def fixedHex (k n : Nat) : String := String.ofList (hexDigits k n [])

/-- A number in hexadecimal notation behind `0x`. -/
def hex (n : Nat) : String := "0x" ++ String.ofList (Nat.toDigits 16 n)

end BuildScript.Digits
