/-!
# Little-endian numbers

Numbers of fixed width as bytes, lowest byte first. Writing reduces a number modulo the width, so
writing and reading are inverse to each other exactly on numbers that fit.
-/

namespace BuildScript.LittleEndian

/-- The lowest `k` bytes of `n`. -/
def encode : Nat → Nat → List UInt8
  | 0, _ => []
  | k + 1, n => n.toUInt8 :: encode k (n / 256)

def decode : List UInt8 → Nat
  | [] => 0
  | b :: bs => b.toNat + 256 * decode bs

@[simp]
theorem length_encode (k n : Nat) : (encode k n).length = k := by
  induction k generalizing n with
  | zero => rfl
  | succ k ih => simp [encode, ih]

theorem decode_encode (k n : Nat) : decode (encode k n) = n % Nat.pow 256 k := by
  induction k generalizing n with
  | zero => simp [encode, decode, Nat.mod_one]
  | succ k ih =>
    have low : n.toUInt8.toNat = n % 256 := by simp [UInt8.toNat_ofNat']
    have step : Nat.pow 256 (k + 1) = 256 * Nat.pow 256 k := Nat.mul_comm _ _
    rw [encode, decode, ih, low, step, Nat.mod_mul]

theorem encode_decode (bs : List UInt8) : encode bs.length (decode bs) = bs := by
  induction bs with
  | nil => rfl
  | cons b bs ih =>
    have hb : b.toNat < 256 := b.toNat_lt
    have low : (decode (b :: bs)).toUInt8 = b := by
      apply UInt8.toNat_inj.1
      simp [decode]
    have high : decode (b :: bs) / 256 = decode bs := by
      simp [decode]
      omega
    rw [List.length_cons, encode, low, high, ih]

/-- Takes the first `k` elements off a list that has that many. -/
def split? {α : Type} (k : Nat) (l : List α) : Option (List α × List α) :=
  let front := l.take k
  if front.length < k then none else some (front, l.drop k)

theorem split?_append {α : Type} {k : Nat} {front : List α} (h : front.length = k)
    (rest : List α) : split? k (front ++ rest) = some (front, rest) := by
  subst h
  simp [split?]

theorem split?_eq_none_iff {α : Type} {k : Nat} {l : List α} :
    split? k l = none ↔ l.length < k := by
  simp only [split?, List.length_take]
  split <;> simp <;> omega

end BuildScript.LittleEndian
