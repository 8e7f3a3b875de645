import BuildScript.Proofs.Scripts.Payloads
import Mathlib.Data.Nat.Digits.Defs

/-!
# What varints spell

A varint spells a number in base 128, lowest digit first, and its last byte is the first one without
the high bit. A decoder for 32 bits takes at most five bytes, and of the fifth there is room for four
bits alone. It does not look at the other three: they are shifted out of the word without a trace.

So the decoder is exact but for one kind of input, and this module tells which. `decodes_wrapped` is
the fact behind it: whatever the bytes spell, what is returned is that number modulo `2 ^ 32`. The
induction is on the bytes, with the bits read so far standing below the shift.
-/

namespace BuildScript

/-! ## Numbers spelled by bytes -/

/-- The number in base 128 whose digits are the low seven bits of the bytes, lowest digit first. -/
def varintValue (bytes : List UInt8) : Nat := Nat.ofDigits 128 (bytes.map fun b ↦ b.toNat % 128)

/-- The high bit is set in every byte but the last. -/
inductive IsVarint : List UInt8 → Prop
  | last {b : UInt8} (h : b.toNat < 128) : IsVarint [b]
  | more {b : UInt8} {bytes : List UInt8} (h : 128 ≤ b.toNat) (rest : IsVarint bytes) :
    IsVarint (b :: bytes)

/-- The bytes begin with a varint of five bytes, the last of which has a bit that 32 bits do not
have room for. -/
def Overfull (bytes : List UInt8) : Prop :=
  ∃ front last, front ++ [last] <+: bytes ∧ IsVarint (front ++ [last]) ∧ front.length = 4 ∧
    16 ≤ last.toNat

section

variable {b : UInt8} {bytes spelling spelling' more more' : List UInt8} {n : Nat}

theorem varintValue_cons (b : UInt8) (bytes : List UInt8) :
    varintValue (b :: bytes) = b.toNat % 128 + 128 * varintValue bytes :=
  Nat.ofDigits_cons

theorem varintValue_append (front back : List UInt8) :
    varintValue (front ++ back) = varintValue front + 128 ^ front.length * varintValue back := by
  rw [varintValue, List.map_append, Nat.ofDigits_append, List.length_map]
  rfl

theorem varintValue_lt (bytes : List UInt8) : varintValue bytes < 128 ^ bytes.length := by
  have hdigits : ∀ d ∈ bytes.map (fun b ↦ b.toNat % 128), d < 128 := by
    intro d hd
    obtain ⟨b, -, rfl⟩ := List.mem_map.mp hd
    exact Nat.mod_lt _ (by decide)
  have hlt := Nat.ofDigits_lt_base_pow_length (by decide) hdigits
  rwa [List.length_map] at hlt

theorem IsVarint.ne_nil (h : IsVarint spelling) : spelling ≠ [] := by
  rcases h with _ | _
  · exact List.cons_ne_nil _ _
  · exact List.cons_ne_nil _ _

/-- A varint ends where it ends: no text begins with two of them. -/
theorem IsVarint.unique (h : IsVarint spelling) (h' : IsVarint spelling')
    (heq : spelling ++ more = spelling' ++ more') : spelling = spelling' := by
  induction h generalizing spelling' with
  | last hlast =>
    rcases h' with _ | ⟨hhigh, -⟩
    · rw [(List.cons.inj heq).1]
    · obtain ⟨rfl, -⟩ := List.cons.inj heq
      omega
  | more hhigh _ ih =>
    rcases h' with hlast | ⟨-, rest'⟩
    · obtain ⟨rfl, -⟩ := List.cons.inj heq
      omega
    · obtain ⟨rfl, hrest⟩ := List.cons.inj heq
      rw [ih rest' hrest]

/-- Bytes begin with a varint of at most `n` bytes, or with `n` bytes that have the high bit, or they
end before that. -/
theorem exists_varint_or (n : Nat) (bytes : List UInt8) :
    (∃ spelling more, bytes = spelling ++ more ∧ IsVarint spelling ∧ spelling.length ≤ n) ∨
    (∃ front more, bytes = front ++ more ∧ front.length = n ∧ ∀ b ∈ front, 128 ≤ b.toNat) ∨
    (bytes.length < n ∧ ∀ b ∈ bytes, 128 ≤ b.toNat) := by
  induction n generalizing bytes with
  | zero => exact .inr (.inl ⟨[], bytes, rfl, rfl, by simp⟩)
  | succ n ih =>
    rcases bytes with _ | ⟨b, bytes⟩
    · exact .inr (.inr ⟨Nat.succ_pos n, by simp⟩)
    rcases Nat.lt_or_ge b.toNat 128 with hlast | hhigh
    · exact .inl ⟨[b], bytes, rfl, .last hlast, Nat.succ_le_succ (Nat.zero_le n)⟩
    rcases ih bytes with ⟨spelling, more, rfl, h, hn⟩ | ⟨front, more, rfl, hn, hfront⟩ | ⟨hn, hall⟩
    · exact .inl ⟨b :: spelling, more, rfl, .more hhigh h, Nat.succ_le_succ hn⟩
    · refine .inr (.inl ⟨b :: front, more, rfl, congrArg Nat.succ hn, ?_⟩)
      exact List.forall_mem_cons.mpr ⟨hhigh, hfront⟩
    · refine .inr (.inr ⟨Nat.succ_lt_succ hn, ?_⟩)
      exact List.forall_mem_cons.mpr ⟨hhigh, hall⟩

/-- Four bytes stay below `2 ^ 28`, so it is the fifth that decides whether 32 bits are enough. -/
theorem value_lt_iff {front : List UInt8} {last : UInt8} (hfront : front.length = 4)
    (hlast : last.toNat < 128) : varintValue (front ++ [last]) < 2 ^ 32 ↔ last.toNat < 16 := by
  have hlow := varintValue_lt front
  have hhigh : varintValue [last] = last.toNat := by
    rw [varintValue_cons, Nat.mod_eq_of_lt hlast]
    rfl
  rw [hfront] at hlow
  rw [varintValue_append, hfront, hhigh]
  omega

theorem IsVarint.exists_last (h : IsVarint spelling) :
    ∃ front last, spelling = front ++ [last] ∧ last.toNat < 128 := by
  induction h with
  | last hlast => exact ⟨[], _, rfl, hlast⟩
  | more _ _ ih =>
    obtain ⟨front, last, rfl, hlast⟩ := ih
    exact ⟨_ :: front, last, rfl, hlast⟩

/-- Of the varints that fit five bytes, those that spell too much are the overfull ones. -/
theorem IsVarint.overfull_iff (h : IsVarint spelling) (hlength : spelling.length ≤ 5) :
    Overfull (spelling ++ more) ↔ 2 ^ 32 ≤ varintValue spelling := by
  constructor
  · rintro ⟨front, last, ⟨more', heq⟩, h', hfront, hlast⟩
    obtain rfl : front ++ [last] = spelling := h'.unique h heq
    obtain ⟨front', last', hends, hlow⟩ := h.exists_last
    obtain ⟨rfl, rfl⟩ := List.append_singleton_inj.mp hends
    exact Nat.not_lt.mp fun hlt ↦ absurd ((value_lt_iff hfront hlow).mp hlt) (by omega)
  · intro hvalue
    obtain ⟨front, last, rfl, hlow⟩ := h.exists_last
    have hfront : front.length = 4 := by
      rw [List.length_append, List.length_singleton] at hlength
      refine Nat.le_antisymm (by omega) (Nat.not_lt.mp fun hshort ↦ ?_)
      have hlt := varintValue_lt (front ++ [last])
      have hpow : 128 ^ (front ++ [last]).length ≤ 128 ^ 4 := by
        refine Nat.pow_le_pow_right (by decide) ?_
        rw [List.length_append, List.length_singleton]
        omega
      omega
    refine ⟨front, last, List.prefix_append _ _, h, hfront, ?_⟩
    exact Nat.not_lt.mp fun hlt ↦ absurd ((value_lt_iff hfront hlow).mpr hlt) (by omega)

end

/-! ## The decoder -/

namespace Decoder

open ByteSource

variable {s : ByteSource} {content bytes spelling front more : List UInt8} {n : Nat}
  {shift value : UInt32}

/-- Adding the bits of one more byte to those below the shift, as far as there is room. -/
theorem toNat_or_shift_mod {bits : UInt8} (hvalue : value.toNat < 2 ^ shift.toNat)
    (hshift : shift.toNat < 32) :
    (value ||| (bits.toUInt32 <<< shift)).toNat =
      (value.toNat + bits.toNat * 2 ^ shift.toNat) % 2 ^ 32 := by
  have hsplit : 2 ^ 32 = 2 ^ shift.toNat * 2 ^ (32 - shift.toNat) := by
    rw [← Nat.pow_add, Nat.add_sub_cancel' hshift.le]
  have hbits : (bits.toUInt32 <<< shift).toNat =
      2 ^ shift.toNat * (bits.toNat % 2 ^ (32 - shift.toNat)) := by
    rw [UInt32.toNat_shiftLeft, UInt8.toNat_toUInt32, Nat.mod_eq_of_lt hshift, Nat.shiftLeft_eq,
      hsplit, Nat.mul_comm, Nat.mul_mod_mul_left]
  have hsum : (value.toNat + bits.toNat * 2 ^ shift.toNat) % 2 ^ 32 =
      2 ^ shift.toNat * (bits.toNat % 2 ^ (32 - shift.toNat)) + value.toNat := by
    rw [hsplit, Nat.add_comm, Nat.mul_comm bits.toNat, Nat.mod_mul, Nat.mul_add_mod,
      Nat.mod_eq_of_lt hvalue, Nat.mul_add_div (Nat.two_pow_pos _), Nat.div_eq_of_lt hvalue]
    exact Nat.add_comm _ _
  rw [hsum, UInt32.toNat_or, hbits, Nat.or_comm, Nat.two_pow_add_eq_or_of_lt hvalue]

/-- Behind the bits read so far, the bytes of a varint add what they spell, modulo `2 ^ 32`. -/
theorem decodes_wrappedFrom (h : IsVarint spelling) (hlength : spelling.length ≤ n)
    (hshift : shift.toNat + 7 * n = 35) (hvalue : value.toNat < 2 ^ shift.toNat) :
    (varintFrom n shift value).Decodes spelling
      (.ofNat (value.toNat + varintValue spelling * 2 ^ shift.toNat)) := by
  induction h generalizing n shift value with
  | @last b hlast =>
    obtain ⟨n, rfl⟩ := Nat.exists_eq_succ_of_ne_zero (Nat.ne_of_gt hlength)
    have hresult : value ||| ((b &&& 0x7F).toUInt32 <<< shift) =
        .ofNat (value.toNat + varintValue [b] * 2 ^ shift.toNat) := by
      rw [← UInt32.toNat_inj, toNat_or_shift_mod hvalue (by omega), toNat_and_low,
        UInt32.toNat_ofNat']
      rfl
    rw [varintFrom_succ]
    refine (decodes_byte b).bind ?_
    rw [if_pos hlast, hresult]
    exact decodes_pure _
  | @more b bytes hhigh rest ih =>
    obtain ⟨n, rfl⟩ := Nat.exists_eq_succ_of_ne_zero
      (Nat.ne_of_gt (Nat.lt_of_lt_of_le (Nat.succ_pos bytes.length) hlength))
    have hbytes : 0 < bytes.length := List.length_pos_iff.mpr rest.ne_nil
    rw [List.length_cons] at hlength
    -- Bytes follow, so this one is not the fifth, and all its bits have room.
    have hpow : 2 ^ shift.toNat ≤ 2 ^ 21 := Nat.pow_le_pow_right (by decide) (by omega)
    have hlow : (b &&& 0x7F).toNat = b.toNat % 128 := toNat_and_low b
    have hbits : b.toNat % 128 * 2 ^ shift.toNat ≤ 127 * 2 ^ shift.toNat :=
      Nat.mul_le_mul_right _ (by omega)
    have hvalue' : (value ||| ((b &&& 0x7F).toUInt32 <<< shift)).toNat =
        value.toNat + b.toNat % 128 * 2 ^ shift.toNat := by
      rw [toNat_or_shift hvalue (by omega) (by rw [hlow]; omega), hlow]
    have hshift' : (shift + 7).toNat = shift.toNat + 7 := by
      rw [UInt32.toNat_add]
      exact Nat.mod_eq_of_lt (by change shift.toNat + 7 < 2 ^ 32; omega)
    have hspelled : value.toNat + varintValue (b :: bytes) * 2 ^ shift.toNat =
        value.toNat + b.toNat % 128 * 2 ^ shift.toNat +
          varintValue bytes * 2 ^ (shift.toNat + 7) := by
      rw [varintValue_cons, Nat.pow_add]
      ring
    rw [varintFrom_succ, hspelled]
    refine (decodes_byte b).bind (b := bytes) ?_
    rw [if_neg (Nat.not_lt.mpr hhigh), ← hvalue', ← hshift']
    refine ih (by omega) (by omega) ?_
    rw [hvalue', hshift', Nat.pow_add]
    omega

/-- What is read of a varint of at most five bytes is what it spells, modulo `2 ^ 32`. -/
theorem decodes_wrapped (h : IsVarint spelling) (hlength : spelling.length ≤ 5) :
    varint.Decodes spelling (.ofNat (varintValue spelling)) := by
  have hdecodes := decodes_wrappedFrom h hlength (show (0 : UInt32).toNat + 7 * 5 = 35 from rfl)
    (show (0 : UInt32).toNat < 2 ^ (0 : UInt32).toNat by decide)
  have hzero : (0 : UInt32).toNat + varintValue spelling * 2 ^ (0 : UInt32).toNat =
      varintValue spelling := by simp
  rwa [hzero] at hdecodes

theorem exists_wrapped (h : s.Over content) (hs : s.remaining = spelling ++ more)
    (hspelling : IsVarint spelling) (hlength : spelling.length ≤ 5) :
    ∃ s', varint s = .ok (.ofNat (varintValue spelling)) s' ∧ s'.remaining = more := by
  obtain ⟨s', hrun, -, hmore⟩ := (decodes_wrapped hspelling hlength).takes h hs
  exact ⟨s', hrun, hmore⟩

/-- As many bytes with the high bit as may be read are an overflow. -/
theorem varintFrom_of_high (h : s.Over content) (hs : s.remaining = front ++ more)
    (hlength : front.length = n) (hfront : ∀ b ∈ front, 128 ≤ b.toNat) :
    ∃ s', varintFrom n shift value s = .error .varintOverflow s' := by
  induction front generalizing n s shift value with
  | nil =>
    subst hlength
    exact ⟨s, rfl⟩
  | cons b front ih =>
    subst hlength
    obtain ⟨hb, hfront⟩ := List.forall_mem_cons.mp hfront
    obtain ⟨s', hrun, h', hrest⟩ := byte_eq h hs
    rw [List.length_cons, varintFrom_succ, bind_of_ok hrun, if_neg (Nat.not_lt.mpr hb)]
    exact ih h' hrest rfl hfront

/-- Fewer bytes, all with the high bit, are the beginning of a varint. -/
theorem varintFrom_of_short (h : s.Over content) (hlength : s.remaining.length < n)
    (hhigh : ∀ b ∈ s.remaining, 128 ≤ b.toNat) :
    ∃ s', varintFrom n shift value s = .error .unexpectedEof s' := by
  generalize hs : s.remaining = bytes at hlength hhigh
  induction bytes generalizing n s shift value with
  | nil =>
    obtain ⟨n, rfl⟩ := Nat.exists_eq_succ_of_ne_zero (Nat.ne_of_gt hlength)
    obtain ⟨s', hrun⟩ := (decodes_byte 0).starves h (hs ▸ List.nil_prefix) (by simp [hs])
    rw [varintFrom_succ]
    exact ⟨s', bind_of_error hrun⟩
  | cons b bytes ih =>
    obtain ⟨n, rfl⟩ := Nat.exists_eq_succ_of_ne_zero (Nat.ne_of_gt (Nat.zero_lt_of_lt hlength))
    obtain ⟨hb, hhigh⟩ := List.forall_mem_cons.mp hhigh
    obtain ⟨s', hrun, h', hrest⟩ := byte_eq h hs
    rw [varintFrom_succ, bind_of_ok hrun, if_neg (Nat.not_lt.mpr hb)]
    exact ih h' hrest (Nat.lt_of_succ_lt_succ hlength) hhigh

/-- What comes of reading a varint: a number that stands there, the end of the bytes, or too many
bytes. -/
theorem exists_of_varint (h : s.Over content) :
    (∃ spelling s', varint s = .ok (.ofNat (varintValue spelling)) s' ∧
      s.remaining = spelling ++ s'.remaining ∧ IsVarint spelling ∧ spelling.length ≤ 5) ∨
    (∃ s', varint s = .error .varintOverflow s' ∧
      ∃ front more, s.remaining = front ++ more ∧ front.length = 5 ∧ ∀ b ∈ front, 128 ≤ b.toNat) ∨
    (∃ s', varint s = .error .unexpectedEof s' ∧
      s.remaining.length < 5 ∧ ∀ b ∈ s.remaining, 128 ≤ b.toNat) := by
  rcases exists_varint_or 5 s.remaining with
    ⟨spelling, more, hs, hspelling, hlength⟩ | ⟨front, more, hs, hlength, hhigh⟩ | ⟨hlength, hhigh⟩
  · obtain ⟨s', hrun, rfl⟩ := exists_wrapped h hs hspelling hlength
    exact .inl ⟨spelling, s', hrun, hs, hspelling, hlength⟩
  · obtain ⟨s', hrun⟩ : ∃ s', varint s = .error .varintOverflow s' :=
      varintFrom_of_high h hs hlength hhigh
    exact .inr (.inl ⟨s', hrun, front, more, hs, hlength, hhigh⟩)
  · obtain ⟨s', hrun⟩ : ∃ s', varint s = .error .unexpectedEof s' :=
      varintFrom_of_short h hlength hhigh
    exact .inr (.inr ⟨s', hrun, hlength, hhigh⟩)

end Decoder

/-! ## Where the decoder is exact -/

/-- On this source, what is returned is what the bytes that were taken spell, and a number too large
for 32 bits is refused. -/
structure ReadsExactly (s : ByteSource) : Prop where
  spelled : ∀ v s', Decoder.varint s = .ok v s' → ∃ spelling,
    s.remaining = spelling ++ s'.remaining ∧ IsVarint spelling ∧ varintValue spelling = v.toNat
  refused : ∀ spelling more, s.remaining = spelling ++ more → IsVarint spelling →
    spelling.length ≤ 5 → 2 ^ 32 ≤ varintValue spelling →
      ∃ s', Decoder.varint s = .error .varintOverflow s'

section

variable {s : ByteSource} {content : List UInt8}

/-- An overfull varint is returned, though it should be refused. -/
theorem ReadsExactly.not_overfull (hexact : ReadsExactly s) (h : s.Over content) :
    ¬Overfull s.remaining := by
  rintro ⟨front, last, ⟨more, hs⟩, hspelling, hfront, hlast⟩
  have hlength : (front ++ [last]).length ≤ 5 := by
    rw [List.length_append, hfront]
    rfl
  have hover : Overfull (front ++ [last] ++ more) :=
    ⟨front, last, List.prefix_append _ _, hspelling, hfront, hlast⟩
  obtain ⟨s', hrun, -⟩ := Decoder.exists_wrapped h hs.symm hspelling hlength
  obtain ⟨s'', hrefused⟩ := hexact.refused _ more hs.symm hspelling hlength
    ((hspelling.overfull_iff hlength).mp hover)
  rw [hrun] at hrefused
  injection hrefused

/-- Where nothing is overfull, every varint of at most five bytes fits 32 bits. -/
theorem readsExactly_of_not_overfull (h : s.Over content) (hroom : ¬Overfull s.remaining) :
    ReadsExactly s := by
  have hfits {spelling more : List UInt8} (hs : s.remaining = spelling ++ more)
      (hspelling : IsVarint spelling) (hlength : spelling.length ≤ 5) :
      varintValue spelling < 2 ^ 32 :=
    Nat.not_le.mp fun hvalue ↦ hroom (hs ▸ (hspelling.overfull_iff hlength).mpr hvalue)
  constructor
  · intro v s' hrun
    rcases Decoder.exists_of_varint h with
      ⟨spelling, s'', hrun', hs, hspelling, hlength⟩ | ⟨s'', hrun', -⟩ | ⟨s'', hrun', -⟩
    · rw [hrun] at hrun'
      injection hrun' with hv hs'
      subst hv hs'
      exact ⟨spelling, hs, hspelling, (UInt32.toNat_ofNat_of_lt' (hfits hs hspelling hlength)).symm⟩
    · rw [hrun] at hrun'
      injection hrun'
    · rw [hrun] at hrun'
      injection hrun'
  · intro spelling more hs hspelling hlength hvalue
    exact absurd hvalue (Nat.not_le.mpr (hfits hs hspelling hlength))

end

/-- Reading is exact unless five bytes spell more than 32 bits hold. Every number that five bytes can
spell is returned modulo `2 ^ 32`, too large or not; and where no such bytes stand, either five bytes
have the high bit, which is an overflow, or the bytes end. -/
theorem varint_readsExactly_iff {s : ByteSource} {content : List UInt8} (h : s.Over content) :
    (ReadsExactly s ↔ ¬Overfull s.remaining) ∧
    (∀ spelling more, s.remaining = spelling ++ more → IsVarint spelling → spelling.length ≤ 5 →
      ∃ v s', Decoder.varint s = .ok v s' ∧ s'.remaining = more ∧
        v.toNat = varintValue spelling % 2 ^ 32) ∧
    ((¬∃ spelling more, s.remaining = spelling ++ more ∧ IsVarint spelling ∧ spelling.length ≤ 5) →
      ∃ e s', Decoder.varint s = .error e s' ∧
        (e = .varintOverflow ∧ 5 ≤ s.remaining.length ∨
          e = .unexpectedEof ∧ s.remaining.length < 5)) := by
  refine ⟨⟨fun hexact ↦ hexact.not_overfull h, readsExactly_of_not_overfull h⟩,
    fun spelling more hs hspelling hlength ↦ ?_, fun hnone ↦ ?_⟩
  · obtain ⟨s', hrun, hmore⟩ := Decoder.exists_wrapped h hs hspelling hlength
    exact ⟨_, s', hrun, hmore, UInt32.toNat_ofNat'⟩
  · rcases Decoder.exists_of_varint h with
      ⟨spelling, s', -, hs, hspelling, hlength⟩ | ⟨s', hrun, front, more, hs, hlength, -⟩ |
        ⟨s', hrun, hlength, -⟩
    · exact absurd ⟨spelling, s'.remaining, hs, hspelling, hlength⟩ hnone
    · refine ⟨_, s', hrun, .inl ⟨rfl, ?_⟩⟩
      rw [hs, List.length_append, hlength]
      exact Nat.le_add_right 5 _
    · exact ⟨_, s', hrun, .inr ⟨rfl, hlength⟩⟩

/-- Five bytes that are not the shortest spelling, with one behind them. -/
theorem varint_readsExactly_padded :
    (ByteSource.ofBytes [0xFF, 0x80, 0x80, 0x80, 0x0F, 7]).Over [0xFF, 0x80, 0x80, 0x80, 0x0F, 7] ∧
    ReadsExactly (.ofBytes [0xFF, 0x80, 0x80, 0x80, 0x0F, 7]) := by
  have hover : (ByteSource.ofBytes [0xFF, 0x80, 0x80, 0x80, 0x0F, 7]).Over
      [0xFF, 0x80, 0x80, 0x80, 0x0F, 7] := rfl
  refine ⟨hover, (varint_readsExactly_iff hover).1.mpr ?_⟩
  rintro ⟨front, last, ⟨more, heq⟩, -, hfront, hlast⟩
  obtain ⟨a, b, c, d, rfl⟩ := List.length_eq_four.mp hfront
  cases heq
  exact absurd hlast (by decide)

/-- The spelling of `2 ^ 32` is read as zero. -/
theorem varint_wraps_around :
    varintValue [0x80, 0x80, 0x80, 0x80, 0x10] = 2 ^ 32 ∧
    IsVarint [0x80, 0x80, 0x80, 0x80, 0x10] ∧
    (∃ s', Decoder.varint (.ofBytes [0x80, 0x80, 0x80, 0x80, 0x10]) = .ok 0 s') ∧
    ¬ReadsExactly (.ofBytes [0x80, 0x80, 0x80, 0x80, 0x10]) := by
  have hspelling : IsVarint [0x80, 0x80, 0x80, 0x80, 0x10] :=
    .more (by decide) (.more (by decide) (.more (by decide) (.more (by decide) (.last (by decide)))))
  have hvalue : varintValue [0x80, 0x80, 0x80, 0x80, 0x10] = 2 ^ 32 := by decide
  obtain ⟨s', hrun⟩ : ∃ s', Decoder.varint (.ofBytes [0x80, 0x80, 0x80, 0x80, 0x10]) =
      .ok 0 s' := by
    obtain ⟨s', hrun, -⟩ := Decoder.exists_wrapped
      (s := .ofBytes [0x80, 0x80, 0x80, 0x80, 0x10]) rfl (List.append_nil _).symm hspelling (by decide)
    exact ⟨s', hrun⟩
  refine ⟨hvalue, hspelling, ⟨s', hrun⟩, fun hexact ↦ ?_⟩
  obtain ⟨s'', hrefused⟩ := hexact.refused _ [] rfl hspelling (by decide) hvalue.ge
  rw [hrun] at hrefused
  injection hrefused

end BuildScript
