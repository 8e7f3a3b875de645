import BuildScript.Proofs.Bytecode.Corruption

/-!
# What the checksum sees of two messages

Absorbing is linear: the state behind two messages of one length, put together bit by bit, is the
state behind the messages put together. So whether the checksum tells two messages of one length
apart depends on nothing but the bits in which they differ, and what stands around the part in which
they differ makes no difference.

A difference that fits into one word is always seen, for the state is a word too: absorbing the
bytes of a word is putting the word on the state and shifting it through. A longer difference need
not be: there are more messages of eight bytes than checksums.
-/

namespace BuildScript.Checksum

/-! ## Absorbing is linear -/

theorem xor_and_one (x y : UInt32) : (x ^^^ y) &&& 1 = (x &&& 1) ^^^ (y &&& 1) := by
  rw [← UInt32.toNat_inj, UInt32.toNat_and, UInt32.toNat_xor, Nat.and_xor_distrib_right,
    ← UInt32.toNat_and, ← UInt32.toNat_and, ← UInt32.toNat_xor]

theorem shift_of_even {x : UInt32} (h : x &&& 1 = 0) : shift x = x >>> 1 := by
  rw [shift, h, if_pos (by decide)]

theorem shift_of_odd {x : UInt32} (h : x &&& 1 = 1) : shift x = x >>> 1 ^^^ 0xEDB88320 := by
  rw [shift, h, if_neg (by decide)]

/-- The polynomial comes in where just one of the lowest bits is set; where both are, it comes in
twice and goes. -/
theorem shift_xor (x y : UInt32) : shift (x ^^^ y) = shift x ^^^ shift y := by
  have hlow := xor_and_one x y
  rcases and_one_eq x with hx | hx <;> rcases and_one_eq y with hy | hy <;> rw [hx, hy] at hlow
  · rw [shift_of_even hlow, shift_of_even hx, shift_of_even hy, UInt32.shiftRight_xor]
  · rw [shift_of_odd hlow, shift_of_even hx, shift_of_odd hy, UInt32.shiftRight_xor,
      UInt32.xor_assoc]
  · rw [shift_of_odd hlow, shift_of_odd hx, shift_of_even hy, UInt32.shiftRight_xor,
      UInt32.xor_assoc, UInt32.xor_assoc, UInt32.xor_comm (y >>> 1)]
  · rw [shift_of_even hlow, shift_of_odd hx, shift_of_odd hy, UInt32.shiftRight_xor,
      UInt32.xor_assoc, UInt32.xor_comm (y >>> 1), ← UInt32.xor_assoc 0xEDB88320, UInt32.xor_self,
      UInt32.zero_xor]

theorem repeat_shift_xor (n : Nat) (x y : UInt32) :
    Nat.repeat shift n (x ^^^ y) = Nat.repeat shift n x ^^^ Nat.repeat shift n y := by
  induction n with
  | zero => rfl
  | succ n ih => rw [Nat.repeat, Nat.repeat, Nat.repeat, ih, shift_xor]

theorem absorb_xor (s t : UInt32) (b c : UInt8) :
    absorb (s ^^^ t) (b ^^^ c) = absorb s b ^^^ absorb t c := by
  rw [absorb, absorb, absorb, ← repeat_shift_xor, UInt8.toUInt32_xor, UInt32.xor_assoc,
    UInt32.xor_assoc s, ← UInt32.xor_assoc t, UInt32.xor_comm t b.toUInt32, UInt32.xor_assoc]

/-- The bits in which two messages differ. -/
def difference (x y : List UInt8) : List UInt8 := List.zipWith (· ^^^ ·) x y

theorem foldl_absorb_difference {x y : List UInt8} (h : x.length = y.length) (s t : UInt32) :
    (difference x y).foldl absorb (s ^^^ t) = x.foldl absorb s ^^^ y.foldl absorb t := by
  induction x generalizing y s t with
  | nil =>
    rw [List.length_eq_zero_iff.mp h.symm]
    rfl
  | cons b x ih =>
    obtain ⟨c, y, rfl⟩ := List.exists_cons_of_length_eq_add_one h.symm
    rw [difference, List.zipWith_cons_cons, List.foldl_cons, absorb_xor]
    exact ih (Nat.succ.inj h) _ _

/-- Two messages of one length have one checksum if and only if the bits in which they differ leave
the state empty. -/
theorem foldl_absorb_eq_iff {x y : List UInt8} (h : x.length = y.length) (s : UInt32) :
    x.foldl absorb s = y.foldl absorb s ↔ (difference x y).foldl absorb 0 = 0 := by
  rw [← UInt32.xor_eq_zero_iff, ← foldl_absorb_difference h, UInt32.xor_self]

theorem crc32_eq_iff {x y : List UInt8} : crc32 x = crc32 y ↔
    x.foldl absorb 0xFFFFFFFF = y.foldl absorb 0xFFFFFFFF :=
  UInt32.xor_left_inj _

/-- What stands in front of two messages of one length and behind them makes no difference. -/
theorem crc32_around_eq_iff {x y : List UInt8} (h : x.length = y.length) (front back : List UInt8) :
    crc32 (front ++ x ++ back) = crc32 (front ++ y ++ back) ↔ crc32 x = crc32 y := by
  have hfold (bytes : List UInt8) : (front ++ bytes ++ back).foldl absorb 0xFFFFFFFF =
      back.foldl absorb (bytes.foldl absorb (front.foldl absorb 0xFFFFFFFF)) := by
    rw [List.foldl_append, List.foldl_append]
  have hback (s t : UInt32) : back.foldl absorb s = back.foldl absorb t ↔ s = t :=
    ⟨eq_of_foldl_absorb_eq, fun heq ↦ by rw [heq]⟩
  rw [crc32_eq_iff, crc32_eq_iff, hfold, hfold, hback, foldl_absorb_eq_iff h, foldl_absorb_eq_iff h]

/-! ## Differences within a word -/

/-- A word whose lowest bits are clear moves down. -/
theorem repeat_shift_mul (n : Nat) {m : Nat} (h : 2 ^ n * m < 2 ^ 32) :
    Nat.repeat shift n (UInt32.ofNat (2 ^ n * m)) = UInt32.ofNat m := by
  induction n generalizing m with
  | zero => rw [Nat.pow_zero, Nat.one_mul]; rfl
  | succ n ih =>
    rw [Nat.pow_succ, Nat.mul_assoc] at h ⊢
    have hdouble : 2 * m < 2 ^ 32 :=
      Nat.lt_of_le_of_lt (Nat.le_mul_of_pos_left _ (Nat.two_pow_pos n)) h
    have hm : m < 2 ^ 32 := Nat.lt_of_le_of_lt (Nat.le_mul_of_pos_left _ Nat.two_pos) hdouble
    have heven : UInt32.ofNat (2 * m) &&& 1 = 0 := by
      rw [← UInt32.toNat_inj, toNat_and_one, UInt32.toNat_ofNat_of_lt' hdouble, Nat.mul_mod_right]
      rfl
    rw [Nat.repeat, ih h, shift_of_even heven, ← UInt32.toNat_inj, toNat_shiftRight_one,
      UInt32.toNat_ofNat_of_lt' hdouble, UInt32.toNat_ofNat_of_lt' hm,
      Nat.mul_div_cancel_left m Nat.two_pos]

theorem repeat_add {α : Type} (f : α → α) (m n : Nat) (x : α) :
    Nat.repeat f (m + n) x = Nat.repeat f m (Nat.repeat f n x) := by
  induction m with
  | zero => rw [Nat.zero_add]; rfl
  | succ m ih => rw [Nat.succ_add, Nat.repeat, Nat.repeat, ih]

/-- The bytes of a word do not overlap. -/
theorem byte_add_eq_xor (b : UInt8) (n : Nat) :
    UInt32.ofNat (b.toNat + 256 * n) = b.toUInt32 ^^^ UInt32.ofNat (2 ^ 8 * n) := by
  have hxor : b.toNat + 256 * n = b.toNat ^^^ 2 ^ 8 * n := by
    have hb : b.toNat < 2 ^ 8 := b.toNat_lt
    have hhigh := @Nat.xor_div_two_pow b.toNat (2 ^ 8 * n) 8
    have hlow := @Nat.xor_mod_two_pow b.toNat (2 ^ 8 * n) 8
    rw [Nat.div_eq_of_lt hb, Nat.mul_div_cancel_left n (by decide), Nat.zero_xor] at hhigh
    rw [Nat.mod_eq_of_lt hb, Nat.mul_mod_right, Nat.xor_zero] at hlow
    omega
  rw [hxor, UInt32.ofNat_xor, UInt32.ofNat_uInt8ToNat]

/-- Absorbing the bytes of a word is putting the word on the state and shifting it through. -/
theorem foldl_absorb_eq {bytes : List UInt8} (h : bytes.length ≤ 4) (s : UInt32) :
    bytes.foldl absorb s =
      Nat.repeat shift (8 * bytes.length) (s ^^^ UInt32.ofNat (LittleEndian.decode bytes)) := by
  induction bytes generalizing s with
  | nil => exact UInt32.xor_zero.symm
  | cons b bytes ih =>
    -- The other bytes stand eight places higher in the word, so the shifts for the first byte bring
    -- them down without letting the polynomial in.
    have hn : bytes.length ≤ 3 := Nat.le_of_succ_le_succ h
    have hbytes : 2 ^ 8 * LittleEndian.decode bytes < 2 ^ 32 := by
      have hlt := Reader.decode_lt bytes
      have hle : 256 ^ bytes.length ≤ 256 ^ 3 := Nat.pow_le_pow_right (by decide) hn
      omega
    rw [List.foldl_cons, ih (Nat.le_succ_of_le hn), absorb, ← repeat_shift_mul 8 hbytes,
      ← repeat_shift_xor, ← repeat_add, LittleEndian.decode, byte_add_eq_xor, UInt32.xor_assoc]
    rfl

/-- Messages that differ only within a word have different checksums. -/
theorem eq_of_crc32_around_eq {x y : List UInt8} (h : x.length = y.length) (hshort : x.length ≤ 4)
    {front back : List UInt8} (hcrc : crc32 (front ++ x ++ back) = crc32 (front ++ y ++ back)) :
    x = y := by
  rw [crc32_around_eq_iff h, crc32_eq_iff, foldl_absorb_eq hshort, foldl_absorb_eq (h ▸ hshort),
    ← h] at hcrc
  have hword := (UInt32.xor_right_inj _).mp (repeat_shift_injective _ hcrc)
  have hdecode (bytes : List UInt8) (hbytes : bytes.length ≤ 4) :
      LittleEndian.decode bytes < 2 ^ 32 :=
    Nat.lt_of_lt_of_le (Reader.decode_lt bytes) (Nat.pow_le_pow_right (by decide) hbytes)
  rw [← UInt32.toNat_inj, UInt32.toNat_ofNat_of_lt' (hdecode x hshort),
    UInt32.toNat_ofNat_of_lt' (hdecode y (h ▸ hshort))] at hword
  rw [← LittleEndian.encode_decode x, hword, h, LittleEndian.encode_decode]

end BuildScript.Checksum
