import BuildScript.Proofs.Bytecode.RoundTrip

/-!
# Corrupted class files

A class file in which one byte was changed is not decoded, unless the byte is one of the flags, which
no check covers. The error names the field: the magic number and the version have their own checks,
and a change of the checksum or behind it is one that the checksum notices, however long the payload
is. For absorbing a byte is injective in the state and in the byte, so states that differ once differ
to the end of the message.
-/

namespace BuildScript

/-! ## What the checksum tells apart -/

namespace Checksum

theorem toNat_shiftRight_one (x : UInt32) : (x >>> 1).toNat = x.toNat / 2 := by
  rw [UInt32.toNat_shiftRight, UInt32.toNat_one, Nat.mod_eq_of_lt (by decide), Nat.shiftRight_one]

theorem toNat_and_one (x : UInt32) : (x &&& 1).toNat = x.toNat % 2 := by
  rw [UInt32.toNat_and, UInt32.toNat_one, Nat.and_one_is_mod]

/-- A word is told by its lowest bit and the others. -/
theorem eq_of_shiftRight_eq {x y : UInt32} (hhigh : x >>> 1 = y >>> 1)
    (hlow : x &&& 1 = y &&& 1) : x = y := by
  rw [← UInt32.toNat_inj, toNat_shiftRight_one, toNat_shiftRight_one] at hhigh
  rw [← UInt32.toNat_inj, toNat_and_one, toNat_and_one] at hlow
  rw [← UInt32.toNat_inj]
  omega

theorem and_one_eq (x : UInt32) : x &&& 1 = 0 ∨ x &&& 1 = 1 := by
  simp only [← UInt32.toNat_inj, toNat_and_one]
  exact Nat.mod_two_eq_zero_or_one x.toNat

/-- The bit that leaves at the low end comes in at the high end, since the polynomial has it. -/
theorem testBit_shift (x : UInt32) : (shift x).toNat.testBit 31 = (x &&& 1 == 1) := by
  have hshifted : (x >>> 1).toNat.testBit 31 = false := by
    refine Nat.testBit_lt_two_pow ?_
    rw [toNat_shiftRight_one]
    have := x.toNat_lt
    omega
  rcases and_one_eq x with hlow | hlow
  · rw [shift, hlow, if_pos (by decide), hshifted]
    rfl
  · rw [shift, hlow, if_neg (by decide), UInt32.toNat_xor, Nat.testBit_xor, hshifted]
    rfl

theorem shift_injective : Function.Injective shift := by
  intro x y h
  have hlow : (x &&& 1) = (y &&& 1) := by
    have hbit := testBit_shift x
    rw [h, testBit_shift] at hbit
    rcases and_one_eq x with hx | hx <;> rcases and_one_eq y with hy | hy <;>
      rw [hx, hy] at hbit ⊢ <;> cases hbit
  refine eq_of_shiftRight_eq ?_ hlow
  rw [shift, shift, hlow] at h
  split at h
  · exact h
  · exact (UInt32.xor_left_inj _).mp h

theorem repeat_shift_injective (n : Nat) : Function.Injective (Nat.repeat shift n) := by
  induction n with
  | zero => exact Function.injective_id
  | succ n ih => exact shift_injective.comp ih

/-- A byte takes different states to different states. -/
theorem eq_of_absorb_eq {state state' : UInt32} {b : UInt8}
    (h : absorb state b = absorb state' b) : state = state' :=
  (UInt32.xor_left_inj _).mp (repeat_shift_injective 8 h)

/-- Different bytes take a state to different states. -/
theorem eq_of_absorb_eq_absorb {state : UInt32} {b b' : UInt8}
    (h : absorb state b = absorb state b') : b = b' := by
  have hwide : b.toUInt32 = b'.toUInt32 :=
    (UInt32.xor_right_inj _).mp (repeat_shift_injective 8 h)
  rw [← UInt8.toUInt8_toUInt32 b, hwide, UInt8.toUInt8_toUInt32]

/-- States that differ still do behind any bytes. -/
theorem eq_of_foldl_absorb_eq {bytes : List UInt8} {state state' : UInt32}
    (h : bytes.foldl absorb state = bytes.foldl absorb state') : state = state' := by
  induction bytes generalizing state state' with
  | nil => exact h
  | cons b bytes ih => exact eq_of_absorb_eq (ih h)

/-- The checksum tells apart messages that differ in one byte. -/
theorem crc32_ne_of_ne (front back : List UInt8) {b b' : UInt8} (h : b ≠ b') :
    crc32 (front ++ b :: back) ≠ crc32 (front ++ b' :: back) := by
  intro heq
  have hfold := (UInt32.xor_left_inj _).mp heq
  rw [List.foldl_append, List.foldl_append] at hfold
  exact h (eq_of_absorb_eq_absorb (eq_of_foldl_absorb_eq hfold))

/-- Writing one other byte changes the checksum. -/
theorem crc32_set_ne {bytes : List UInt8} {i : Nat} {b : UInt8} (h : bytes.set i b ≠ bytes) :
    crc32 (bytes.set i b) ≠ crc32 bytes := by
  have hi : i < bytes.length := Nat.lt_of_not_le fun hle ↦ h (List.set_eq_of_length_le hle)
  have hsplit : bytes.take i ++ bytes[i] :: bytes.drop (i + 1) = bytes := by
    rw [List.getElem_cons_drop, List.take_append_drop]
  have hset : bytes.set i b = bytes.take i ++ b :: bytes.drop (i + 1) := by
    rw [List.set_eq_take_append_cons_drop, if_pos hi]
  have hb : b ≠ bytes[i] := by
    rintro rfl
    exact h (hset.trans hsplit)
  have hne := crc32_ne_of_ne (bytes.take i) (bytes.drop (i + 1)) hb
  rwa [hsplit, ← hset] at hne

end Checksum

/-! ## One changed byte -/

namespace ClassFile

/-- A word in which a byte was changed is another word. -/
theorem exists_word_of_set {x : UInt32} {i : Nat} {b : UInt8} {rest : List UInt8}
    (h : (Wire.word x).set i b ++ rest ≠ Wire.word x ++ rest) :
    ∃ y ≠ x, (Wire.word x).set i b = Wire.word y := by
  have hlength : ((Wire.word x).set i b).length = 4 := by rw [List.length_set, length_word]
  refine ⟨_, ?_, (Reader.word_decode hlength).symm⟩
  intro heq
  apply h
  rw [← Reader.word_decode hlength, heq]

theorem decode_frame_of_magic {magic : UInt32} (h : magic ≠ standardMagic)
    (version flags checksum : UInt32) (covered : List UInt8) :
    decode (frame magic version flags checksum covered) = .error (.invalidMagic magic) := by
  rw [decode_eq_map, decodeWithRest_frame, if_pos h]
  rfl

theorem decode_frame_of_version {version : UInt32} (h : version ≠ currentVersion)
    (flags checksum : UInt32) (covered : List UInt8) :
    decode (frame standardMagic version flags checksum covered) =
      .error (.unsupportedVersion version) := by
  rw [decode_eq_map, decodeWithRest_frame, if_neg (not_not_intro rfl), if_pos h]
  rfl

theorem decode_frame_of_checksum {checksum : UInt32} {covered : List UInt8}
    (h : checksum ≠ Checksum.crc32 covered) (flags : UInt32) :
    decode (frame standardMagic currentVersion flags checksum covered) =
      .error (.checksumMismatch checksum (Checksum.crc32 covered)) := by
  rw [decode_eq_map, decodeWithRest_frame, if_neg (not_not_intro rfl), if_neg (not_not_intro rfl),
    if_pos h]
  rfl

/-- An error for a changed byte at each place outside the flags, by the field it stands in. -/
theorem decode_set_encode {c : ClassFile} (hmagic : c.magic = standardMagic)
    (hversion : c.version = currentVersion) {i : Nat} {b : UInt8} (hi : i < c.encode.length)
    (hb : b ≠ c.encode[i]) :
    (i < 4 → ∃ found ≠ standardMagic,
      decode (c.encode.set i b) = .error (.invalidMagic found)) ∧
    (4 ≤ i → i < 8 → ∃ found ≠ currentVersion,
      decode (c.encode.set i b) = .error (.unsupportedVersion found)) ∧
    (12 ≤ i → ∃ stored computed, stored ≠ computed ∧
      decode (c.encode.set i b) = .error (.checksumMismatch stored computed)) := by
  have hne : c.encode.set i b ≠ c.encode := by
    intro heq
    have hget := List.getElem_set_self (i := i) (a := b) (l := c.encode) (by simpa using hi)
    exact hb (by simp only [heq] at hget; exact hget.symm)
  rw [encode_eq_frame, hmagic, hversion, frame] at hne ⊢
  refine ⟨fun hi ↦ ?in_magic, fun hle hlt ↦ ?in_version, fun hle ↦ ?behind_flags⟩
  case in_magic =>
    rw [List.set_append_left _ _ (by rwa [length_word])] at hne ⊢
    obtain ⟨found, hfound, hword⟩ := exists_word_of_set hne
    rw [hword]
    exact ⟨found, hfound, decode_frame_of_magic hfound ..⟩
  case in_version =>
    rw [List.set_append_right _ _ (by rwa [length_word]), length_word,
      List.set_append_left _ _ (by rw [length_word]; omega)] at hne ⊢
    obtain ⟨found, hfound, hword⟩ := exists_word_of_set fun heq ↦ hne (congrArg _ heq)
    rw [hword]
    exact ⟨found, hfound, decode_frame_of_version hfound ..⟩
  case behind_flags =>
    rw [List.set_append_right _ _ (by rw [length_word]; omega), length_word,
      List.set_append_right _ _ (by rw [length_word]; omega), length_word,
      List.set_append_right _ _ (by rw [length_word]; omega), length_word] at hne ⊢
    have hcovered := fun heq ↦ hne (congrArg _ (congrArg _ (congrArg _ heq)))
    rcases Nat.lt_or_ge i 16 with hlt | hge
    · rw [List.set_append_left _ _ (by rw [length_word]; omega)] at hcovered ⊢
      obtain ⟨stored, hstored, hword⟩ := exists_word_of_set hcovered
      rw [hword]
      exact ⟨stored, _, hstored, decode_frame_of_checksum hstored _⟩
    · rw [List.set_append_right _ _ (by rw [length_word]; omega), length_word] at hcovered ⊢
      have hcrc := Checksum.crc32_set_ne fun heq ↦ hcovered (congrArg _ heq)
      exact ⟨_, _, hcrc.symm, decode_frame_of_checksum hcrc.symm _⟩

/-- A class file with another version, and one whose name claims to be longer. -/
theorem oddFile_with_changed_byte :
    (oddFile.magic = standardMagic ∧ oddFile.version = currentVersion) ∧
    (∃ hi : 4 < oddFile.encode.length, (9 : UInt8) ≠ oddFile.encode[4] ∧
      ∃ found ≠ currentVersion,
        decode (oddFile.encode.set 4 9) = .error (.unsupportedVersion found)) ∧
    ∃ hi : 16 < oddFile.encode.length, (255 : UInt8) ≠ oddFile.encode[16] ∧
      ∃ stored computed, stored ≠ computed ∧
        decode (oddFile.encode.set 16 255) = .error (.checksumMismatch stored computed) := by
  have hversion : ∃ hi : 4 < oddFile.encode.length, (9 : UInt8) ≠ oddFile.encode[4] := by
    decide +kernel
  have hname : ∃ hi : 16 < oddFile.encode.length, (255 : UInt8) ≠ oddFile.encode[16] := by
    decide +kernel
  refine ⟨⟨rfl, rfl⟩, ?_, ?_⟩
  · exact ⟨hversion.1, hversion.2,
      (decode_set_encode rfl rfl hversion.1 hversion.2).2.1 (by decide) (by decide)⟩
  · exact ⟨hname.1, hname.2, (decode_set_encode rfl rfl hname.1 hname.2).2.2 (by decide)⟩

end ClassFile

end BuildScript
