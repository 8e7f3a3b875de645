import BuildScript.Proofs.Bytecode.RoundTrip

/-!
# Truncated class files

No strict prefix of the binary form of a class file is decoded. A checksum cannot promise this, since
that of the shorter payload may happen to be the one in the header; the format itself does. Every
reader of it is `Exact`, so a payload that is read from a prefix would be read from the whole file as
well, with bytes left over, while reading the whole file leaves nothing.
-/

namespace BuildScript

open Reader

/-! ## The readers of class files -/

theorem CompiledMethod.exact_reader : Exact reader :=
  exact_text.bind fun _ ↦ (exact_number 2).map.bind fun _ ↦ (exact_number 2).map.bind fun _ ↦
    (exact_number 4).map.bind fun _ ↦ (exact_number 4).bind fun n ↦ (exact_bytes n).map

theorem ConstantPool.exact_reader : Exact reader :=
  (exact_table exact_text).bind fun _ ↦ (exact_table (exact_number 8).map).bind fun _ ↦
    (exact_table (exact_number 8).map).map

namespace ClassFile

theorem exact_payloadReader (magic version flags : UInt32) :
    Exact (payloadReader magic version flags) :=
  exact_text.bind fun _ ↦ exact_optionalText.bind fun _ ↦ exact_optionalText.bind fun _ ↦
    ConstantPool.exact_reader.bind fun _ ↦ (exact_table CompiledMethod.exact_reader).map

/-- Headers of which one stands in front of the other agree word by word. -/
theorem eq_of_frame_append {magic magic' version version' flags flags' checksum checksum' : UInt32}
    {covered covered' rest : List UInt8}
    (h : frame magic version flags checksum covered ++ rest =
      frame magic' version' flags' checksum' covered') :
    flags = flags' ∧ covered ++ rest = covered' := by
  simp only [frame, List.append_assoc] at h
  obtain ⟨-, h₁⟩ := (reads_word magic).unique (reads_word magic') h
  obtain ⟨-, h₂⟩ := (reads_word version).unique (reads_word version') h₁
  obtain ⟨hflags, h₃⟩ := (reads_word flags).unique (reads_word flags') h₂
  exact ⟨hflags, ((reads_word checksum).unique (reads_word checksum') h₃).2⟩

/-- Nothing stands between a prefix that is decoded and the end of an encoded class. -/
theorem eq_nil_of_decode {c d : ClassFile} (h : c.Encodable) {front rest : List UInt8}
    (happend : front ++ rest = c.encode) (hdecode : decode front = .ok d) : rest = [] := by
  obtain ⟨flags, covered, c', rfl, hread⟩ := exists_frame_of_decode hdecode
  rw [encode_eq_frame, h.magic_eq, h.version_eq] at happend
  obtain ⟨rfl, hcovered⟩ := eq_of_frame_append happend
  have hpayload := reads_payloadReader h
  rw [h.magic_eq, h.version_eq] at hpayload
  -- What was read from the prefix is read from the whole payload, and so is the class itself.
  obtain ⟨taken, htaken, hreads⟩ := exact_payloadReader _ _ _ _ _ _ hread
  have hend : taken ++ (c'.rest ++ rest) = c.payload ++ [] := by
    rw [← List.append_assoc, ← htaken, hcovered, List.append_nil]
  exact (List.append_eq_nil_iff.mp (hreads.unique hpayload hend).2).2

/-- Decoding a strict prefix of an encoded class fails, whatever its checksum is. -/
theorem decode_of_strict_prefix {c : ClassFile} (h : c.Encodable) {front : List UInt8}
    (hfront : front <+: c.encode) (hstrict : front ≠ c.encode) :
    ∃ e, decode front = .error e := by
  obtain ⟨rest, happend⟩ := hfront
  cases hdecode : decode front with
  | error e => exact ⟨e, rfl⟩
  | ok d =>
    obtain rfl := eq_nil_of_decode h happend hdecode
    exact absurd (by rw [← happend, List.append_nil]) hstrict

/-- A class file whose last byte is missing. -/
theorem oddFile_without_last_byte :
    (oddFile.Encodable ∧ oddFile.encode.dropLast <+: oddFile.encode ∧
      oddFile.encode.dropLast ≠ oddFile.encode) ∧
    ∃ e, decode oddFile.encode.dropLast = .error e := by
  have hfront := List.dropLast_prefix oddFile.encode
  have hstrict : oddFile.encode.dropLast ≠ oddFile.encode := by
    intro heq
    have hlength := congrArg List.length heq
    rw [List.length_dropLast] at hlength
    have hpos : 0 < oddFile.encode.length := List.length_pos_iff.mpr (List.cons_ne_nil _ _)
    omega
  exact ⟨⟨encodable_oddFile, hfront, hstrict⟩,
    decode_of_strict_prefix encodable_oddFile hfront hstrict⟩

end ClassFile

end BuildScript
