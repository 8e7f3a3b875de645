import BuildScript.Bytecode.ClassFile
import BuildScript.Proofs.Bytecode.Readers
import BuildScript.Proofs.Bytecode.WellFormed

/-!
# Class files survive encoding

Decoding the binary form of a class file gives the class file again and leaves nothing behind, if
the header is the standard one and all lengths fit into the four bytes that are kept for them. Such
files are `Encodable`, and every file that comes out of the decoder is, whatever it was read from:
with presence bytes that no encoder writes, or with bytes behind the last method. So encoding loses
nothing of a file that was accepted once.

`decodeWithRest` is the decoder together with what it has not read, of which the decoder itself only
keeps the file.
-/

namespace BuildScript

open Reader

/-- The bytes of the text fit into a length of four bytes. -/
def ShortText (s : String) : Prop := s.utf8ByteSize < 2 ^ 32

instance : DecidablePred ShortText := fun _ ↦ Nat.decLt _ _

/-! ## Methods and constants -/

namespace CompiledMethod

structure Encodable (m : CompiledMethod) : Prop where
  name : ShortText m.name
  code : m.code.size < 2 ^ 32

instance : DecidablePred Encodable := fun m ↦
  decidable_of_iff (ShortText m.name ∧ m.code.size < 2 ^ 32)
    ⟨fun h ↦ ⟨h.1, h.2⟩, fun h ↦ ⟨h.name, h.code⟩⟩

theorem reads_reader {m : CompiledMethod} (h : m.Encodable) : Reads reader m.encode m := by
  have hcode := reads_bytes m.code.toList
  rw [Array.length_toList] at hcode
  exact (reads_text h.name).bind ((reads_half m.paramCount).bind ((reads_half m.localCount).bind
    ((reads_word m.line).bind ((reads_number h.code).bind (hcode.map fun code ↦
      (⟨m.name, m.paramCount, m.localCount, m.line, code.toArray⟩ : CompiledMethod))))))

theorem gives_reader : Gives reader Encodable := by
  refine gives_text.bind fun name hname ↦ (gives_true _).bind fun paramCount _ ↦
    (gives_true _).bind fun localCount _ ↦ (gives_true _).bind fun line _ ↦
      (gives_number 4).bind fun n hn ↦ (gives_bytes n).bind fun code hcode ↦ ?_
  refine gives_pure ⟨hname, ?_⟩
  rw [List.size_toArray, hcode]
  exact hn

end CompiledMethod

namespace ConstantPool

structure Encodable (pool : ConstantPool) : Prop where
  strings_size : pool.strings.size < 2 ^ 32
  strings : ∀ s ∈ pool.strings, ShortText s
  integers_size : pool.integers.size < 2 ^ 32
  floats_size : pool.floats.size < 2 ^ 32

instance : DecidablePred Encodable := fun pool ↦
  decidable_of_iff (pool.strings.size < 2 ^ 32 ∧ (∀ s ∈ pool.strings, ShortText s) ∧
      pool.integers.size < 2 ^ 32 ∧ pool.floats.size < 2 ^ 32)
    ⟨fun h ↦ ⟨h.1, h.2.1, h.2.2.1, h.2.2.2⟩,
      fun h ↦ ⟨h.strings_size, h.strings, h.integers_size, h.floats_size⟩⟩

theorem reads_reader {pool : ConstantPool} (h : pool.Encodable) : Reads reader pool.encode pool := by
  have hfloats := (reads_table h.floats_size fun x _ ↦ reads_float x).map fun floats ↦
    (⟨pool.strings, pool.integers, floats⟩ : ConstantPool)
  exact (reads_table h.strings_size fun s hs ↦ reads_text (h.strings s hs)).bind
    ((reads_table h.integers_size fun n _ ↦ reads_integer n).bind hfloats)

theorem gives_reader : Gives reader Encodable := by
  refine (gives_table gives_text).bind fun strings hstrings ↦
    (gives_table (gives_true _)).bind fun integers hintegers ↦
      (gives_table (gives_true _)).bind fun floats hfloats ↦ ?_
  exact gives_pure ⟨hstrings.1, hstrings.2, hintegers.1, hfloats.1⟩

end ConstantPool

/-! ## Class files -/

namespace ClassFile

/-- A class file with the standard header whose lengths fit into four bytes each. -/
structure Encodable (c : ClassFile) : Prop where
  magic_eq : c.magic = standardMagic
  version_eq : c.version = currentVersion
  name : ShortText c.name
  superName : ∀ s ∈ c.superName, ShortText s
  sourceFile : ∀ s ∈ c.sourceFile, ShortText s
  constants : c.constants.Encodable
  methods_length : c.methods.length < 2 ^ 32
  methods : ∀ m ∈ c.methods, m.Encodable

instance : DecidablePred Encodable := fun c ↦
  decidable_of_iff ((c.magic = standardMagic ∧ c.version = currentVersion) ∧
      (ShortText c.name ∧ (∀ s ∈ c.superName, ShortText s) ∧ ∀ s ∈ c.sourceFile, ShortText s) ∧
      c.constants.Encodable ∧ c.methods.length < 2 ^ 32 ∧ ∀ m ∈ c.methods, m.Encodable)
    ⟨fun h ↦ ⟨h.1.1, h.1.2, h.2.1.1, h.2.1.2.1, h.2.1.2.2, h.2.2.1, h.2.2.2.1, h.2.2.2.2⟩,
      fun h ↦ ⟨⟨h.magic_eq, h.version_eq⟩, ⟨h.name, h.superName, h.sourceFile⟩, h.constants,
        h.methods_length, h.methods⟩⟩

theorem reads_payloadReader {c : ClassFile} (h : c.Encodable) :
    Reads (payloadReader c.magic c.version c.flags) c.payload c := by
  have htable : Reads (table CompiledMethod.reader)
      (Wire.table CompiledMethod.encode c.methods.toArray.toList) c.methods.toArray :=
    reads_table h.methods_length fun m hm ↦
      CompiledMethod.reads_reader (h.methods m (List.mem_toArray.mp hm))
  have hmethods := htable.map fun methods ↦ ({ c with methods := methods.toList } : ClassFile)
  exact (reads_text h.name).bind ((reads_optionalText h.superName).bind
    ((reads_optionalText h.sourceFile).bind
      ((ConstantPool.reads_reader h.constants).bind hmethods)))

theorem gives_payloadReader (flags : UInt32) :
    Gives (payloadReader standardMagic currentVersion flags) Encodable := by
  refine gives_text.bind fun name hname ↦ gives_optionalText.bind fun superName hsuperName ↦
    gives_optionalText.bind fun sourceFile hsourceFile ↦
      ConstantPool.gives_reader.bind fun constants hconstants ↦
        (gives_table CompiledMethod.gives_reader).bind fun methods hmethods ↦ ?_
  refine gives_pure ⟨rfl, rfl, hname, hsuperName, hsourceFile, hconstants, ?_, fun m hm ↦ ?_⟩
  · rw [Array.length_toList]
    exact hmethods.1
  · exact hmethods.2 m (Array.mem_toList_iff.mp hm)

/-! ### Decoding -/

/-- The class that the bytes encode, and where it ends. -/
def decodeWithRest (bytes : List UInt8) : Except ClassFileError (ClassFile × ByteCursor) := do
  let (magic, c) ← step Reader.word (.start bytes)
  if magic != standardMagic then throw (.invalidMagic magic)
  let (version, c) ← step Reader.word c
  if version != currentVersion then throw (.unsupportedVersion version)
  let (flags, c) ← step Reader.word c
  let (stored, c) ← step Reader.word c
  let computed := Checksum.crc32 c.rest
  if stored != computed then throw (.checksumMismatch stored computed)
  step (payloadReader magic version flags) c

theorem decode_eq_map (bytes : List UInt8) : decode bytes = Prod.fst <$> decodeWithRest bytes := by
  rw [decode, decodeWithRest]
  simp only [map_bind, bind_pure_comp, apply_ite (Functor.map Prod.fst)]

/-- A step of decoding that reads what was written. -/
theorem step_of_reads {α : Type} {r : Reader α} {bytes : List UInt8} {x : α} (h : Reads r bytes x)
    (position : Nat) (rest : List UInt8) :
    step r ⟨position, bytes ++ rest, true⟩ = .ok (x, ⟨position + bytes.length, rest, true⟩) := by
  rw [step, Reader.run, EStateM.run, h]
  rfl

theorem ok_bind {ε α β : Type} (x : α) (f : α → Except ε β) : (Except.ok x >>= f) = f x := rfl

theorem length_word (x : UInt32) : (Wire.word x).length = 4 := LittleEndian.length_encode 4 _

/-- Four words of a header and what stands behind them. -/
def frame (magic version flags checksum : UInt32) (covered : List UInt8) : List UInt8 :=
  Wire.word magic ++ (Wire.word version ++ (Wire.word flags ++ (Wire.word checksum ++ covered)))

theorem encode_eq_frame (c : ClassFile) :
    c.encode = frame c.magic c.version c.flags (Checksum.crc32 c.payload) c.payload := rfl

/-- The words of the header are checked one after the other, before anything behind them is read. -/
theorem decodeWithRest_frame (magic version flags checksum : UInt32) (covered : List UInt8) :
    decodeWithRest (frame magic version flags checksum covered) =
      if magic ≠ standardMagic then .error (.invalidMagic magic)
      else if version ≠ currentVersion then .error (.unsupportedVersion version)
      else if checksum ≠ Checksum.crc32 covered then
        .error (.checksumMismatch checksum (Checksum.crc32 covered))
      else step (payloadReader magic version flags) ⟨16, covered, true⟩ := by
  -- The four words of the header, each with the check behind it.
  rw [decodeWithRest, frame, ByteCursor.start, step_of_reads (reads_word magic), ok_bind]
  simp only [bne_iff_ne]
  by_cases hmagic : magic ≠ standardMagic
  · rw [if_pos hmagic, if_pos hmagic]
    rfl
  rw [if_neg hmagic, if_neg hmagic, step_of_reads (reads_word version), ok_bind]
  dsimp only
  by_cases hversion : version ≠ currentVersion
  · rw [if_pos hversion, if_pos hversion]
    rfl
  rw [if_neg hversion, if_neg hversion, step_of_reads (reads_word flags), ok_bind]
  dsimp only
  rw [step_of_reads (reads_word checksum), ok_bind]
  dsimp only
  by_cases hchecksum : checksum ≠ Checksum.crc32 covered
  · rw [if_pos hchecksum, if_pos hchecksum]
    rfl
  rw [if_neg hchecksum, if_neg hchecksum]
  simp only [length_word, Nat.zero_add, Nat.reduceAdd]

/-- The binary form of a class with more bytes behind it, which the checksum covers. -/
def encodeBefore (c : ClassFile) (rest : List UInt8) : List UInt8 :=
  let covered := c.payload ++ rest
  Wire.word c.magic ++ (Wire.word c.version ++ (Wire.word c.flags ++
    (Wire.word (Checksum.crc32 covered) ++ covered)))

theorem encodeBefore_eq_frame (c : ClassFile) (rest : List UInt8) :
    c.encodeBefore rest = frame c.magic c.version c.flags (Checksum.crc32 (c.payload ++ rest))
      (c.payload ++ rest) := rfl

theorem encodeBefore_nil (c : ClassFile) : c.encodeBefore [] = c.encode := by
  rw [encodeBefore, List.append_nil, encode]

/-- Decoding what was encoded gives the class and leaves what stands behind it. -/
theorem decodeWithRest_encodeBefore {c : ClassFile} (h : c.Encodable) (rest : List UInt8) :
    decodeWithRest (c.encodeBefore rest) = .ok (c, ⟨c.encode.length, rest, true⟩) := by
  have hlength : c.encode.length = 16 + c.payload.length := by
    simp only [encode_eq_frame, frame, List.length_append, length_word]
    omega
  rw [encodeBefore_eq_frame, decodeWithRest_frame, if_neg (not_not_intro h.magic_eq),
    if_neg (not_not_intro h.version_eq), if_neg (not_not_intro rfl),
    step_of_reads (reads_payloadReader h), hlength]

theorem decode_encodeBefore {c : ClassFile} (h : c.Encodable) (rest : List UInt8) :
    decode (c.encodeBefore rest) = .ok c := by
  rw [decode_eq_map, decodeWithRest_encodeBefore h]
  rfl

theorem ok_of_step {α : Type} {r : Reader α} {cursor cursor' : ByteCursor} {x : α}
    (h : step r cursor = .ok (x, cursor')) : r cursor = .ok x cursor' := by
  rw [step, Reader.run, EStateM.run] at h
  split at h
  next hok =>
    cases h
    exact hok
  next => cases h

/-- A word that was read stands in front of what was not read. -/
theorem eq_word_of_step {position : Nat} {bytes : List UInt8} {x : UInt32} {c' : ByteCursor}
    (h : step Reader.word ⟨position, bytes, true⟩ = .ok (x, c')) :
    ∃ rest, bytes = Wire.word x ++ rest ∧ c' = ⟨position + 4, rest, true⟩ := by
  have hbytes : bytes = Wire.word x ++ c'.rest := rest_of_word (ok_of_step h)
  rw [hbytes, step_of_reads (reads_word x), length_word] at h
  injection h with h
  exact ⟨c'.rest, hbytes, (congrArg Prod.snd h).symm⟩

/-- A class that was decoded stands behind a standard header, from which its payload was read. -/
theorem exists_frame_of_decode {bytes : List UInt8} {c : ClassFile} (h : decode bytes = .ok c) :
    ∃ flags covered c',
      bytes = frame standardMagic currentVersion flags (Checksum.crc32 covered) covered ∧
        payloadReader standardMagic currentVersion flags ⟨16, covered, true⟩ = .ok c c' := by
  obtain ⟨⟨magic, c₁⟩, hmagic, h₁⟩ := bind_eq_ok.mp h
  obtain ⟨bytes₁, rfl, rfl⟩ := eq_word_of_step hmagic
  dsimp only at h₁
  split at h₁
  · cases h₁
  next hstandard =>
  obtain ⟨⟨version, c₂⟩, hversion, h₂⟩ := bind_eq_ok.mp h₁
  obtain ⟨bytes₂, rfl, rfl⟩ := eq_word_of_step hversion
  dsimp only at h₂
  split at h₂
  · cases h₂
  next hcurrent =>
  obtain ⟨⟨flags, c₃⟩, hflags, h₃⟩ := bind_eq_ok.mp h₂
  obtain ⟨bytes₃, rfl, rfl⟩ := eq_word_of_step hflags
  obtain ⟨⟨stored, c₄⟩, hstored, h₄⟩ := bind_eq_ok.mp h₃
  obtain ⟨covered, rfl, rfl⟩ := eq_word_of_step hstored
  dsimp only at h₄
  split at h₄
  · cases h₄
  next hchecksum =>
  obtain ⟨⟨file, c'⟩, hpayload, h₅⟩ := bind_eq_ok.mp h₄
  cases h₅
  obtain rfl : magic = standardMagic := by simpa using hstandard
  obtain rfl : version = currentVersion := by simpa using hcurrent
  obtain rfl : stored = Checksum.crc32 covered := by simpa using hchecksum
  exact ⟨flags, covered, c', rfl, ok_of_step hpayload⟩

theorem encodable_of_decode {bytes : List UInt8} {c : ClassFile} (h : decode bytes = .ok c) :
    c.Encodable := by
  obtain ⟨flags, covered, c', -, hread⟩ := exists_frame_of_decode h
  exact gives_payloadReader flags _ c c' hread

/-- The binary form of an encodable class is decoded to the class, up to its last byte; and a class
that was decoded from any bytes whatever is decoded again from its own binary form. -/
theorem decode_encode_round_trip :
    (∀ c : ClassFile, c.Encodable → decode c.encode = .ok c ∧
      decodeWithRest c.encode = .ok (c, ⟨c.encode.length, [], true⟩)) ∧
    ∀ bytes c, decode bytes = .ok c → decode c.encode = .ok c := by
  have hencode (c : ClassFile) (h : c.Encodable) : decode c.encode = .ok c := by
    rw [← encodeBefore_nil]
    exact decode_encodeBefore h []
  refine ⟨fun c h ↦ ⟨hencode c h, ?_⟩, fun bytes c h ↦ hencode c (encodable_of_decode h)⟩
  rw [← encodeBefore_nil, decodeWithRest_encodeBefore h, encodeBefore_nil]

/-! A class with a quiet and a signalling NaN, a negative zero and a method whose code is no code. -/

def oddFile : ClassFile where
  magic := standardMagic
  version := currentVersion
  flags := 0xFFFFFFFF
  name := "größe.Ωdd"
  superName := none
  sourceFile := some ""
  constants :=
    { strings := #["", "a", "a"]
      integers := #[-1, 9223372036854775807]
      floats := #[⟨0x7FF8000000000001⟩, ⟨0xFFF4000000000000⟩, ⟨0x8000000000000000⟩] }
  methods := [⟨"m", 9, 3, 7, #[0xFF, 0x03]⟩, ⟨"m", 0, 0, 0, #[]⟩]

theorem encodable_oddFile : oddFile.Encodable := by decide

theorem oddFile_round_trip :
    oddFile.Encodable ∧
      decodeWithRest oddFile.encode = .ok (oddFile, ⟨oddFile.encode.length, [], true⟩) ∧
      decode (oddFile.encodeBefore [1, 2, 3]) = .ok oddFile ∧
      decode oddFile.encode = .ok oddFile := by
  have hdecode := decode_encodeBefore encodable_oddFile [1, 2, 3]
  have hwhole := decode_encode_round_trip.1 oddFile encodable_oddFile
  exact ⟨encodable_oddFile, hwhole.2, hdecode, decode_encode_round_trip.2 _ _ hdecode⟩

end ClassFile

end BuildScript
