import BuildScript.Proofs.Bytecode.Readers
import BuildScript.Proofs.Bytecode.WellFormed

/-!
# Well-formed classes, byte by byte

Which classes are well formed, said about the bytes of the code alone: neither the reader of
instructions nor their typed form occurs in `ClassFile.Conforms`. Code conforms if it is the bytes of
some `EncodedInstr`s, one behind the other, whose operands refer to what exists. `verify_eq_ok_iff`
says what the verifier accepts in terms of the instructions it has read; here these are compared with
the bytes, in both directions, and bytes are instructions in one way at most.
-/

namespace BuildScript

/-! ## Instructions as bytes -/

/-- An operation code and as many bytes of operands as it takes. -/
structure EncodedInstr where
  opcode : Opcode
  operands : List UInt8
  length_operands : operands.length = opcode.operandSize

namespace EncodedInstr

def bytes (e : EncodedInstr) : List UInt8 := e.opcode.byte :: e.operands

/-- The index of a constant takes the first four bytes of the operands. -/
def constantIndex (e : EncodedInstr) : Nat := LittleEndian.decode (e.operands.take 4)

/-- The slot of a local is all there is of the operands. -/
def slot (e : EncodedInstr) : Nat := LittleEndian.decode e.operands

/-- The displacement of a jump, in two's complement. -/
def displacement (e : EncodedInstr) : Int :=
  let n := LittleEndian.decode e.operands
  if 2 * n < UInt32.size then n else n - UInt32.size

/-- Of two instructions at the front of the same bytes neither is cut off by the other. -/
theorem eq_of_bytes_append_eq {e e' : EncodedInstr} {rest rest' : List UInt8}
    (h : e.bytes ++ rest = e'.bytes ++ rest') : e = e' ∧ rest = rest' := by
  obtain ⟨op, operands, hlength⟩ := e
  obtain ⟨op', operands', hlength'⟩ := e'
  obtain ⟨hbyte, hbehind⟩ := List.cons.inj h
  have hop : op = op' := by
    have hbytes : some op = some op' := by
      rw [← Opcode.ofByte?_byte op, ← Opcode.ofByte?_byte op']
      exact congrArg Opcode.ofByte? hbyte
    exact Option.some.inj hbytes
  subst hop
  obtain ⟨rfl, rfl⟩ := List.append_inj hbehind (hlength.trans hlength'.symm)
  exact ⟨rfl, rfl⟩

/-- Bytes are instructions in one way at most. -/
theorem eq_of_flatMap_bytes_eq {parts parts' : List EncodedInstr}
    (h : parts.flatMap bytes = parts'.flatMap bytes) : parts = parts' := by
  induction parts generalizing parts' with
  | nil =>
    cases parts' with
    | nil => rfl
    | cons e' parts' => cases h
  | cons e parts ih =>
    cases parts' with
    | nil => cases h
    | cons e' parts' =>
      rw [List.flatMap_cons, List.flatMap_cons] at h
      obtain ⟨rfl, hrest⟩ := eq_of_bytes_append_eq h
      rw [ih hrest]

end EncodedInstr

/-- The bytes in front of the instruction with the given number. -/
def startOf (parts : List EncodedInstr) (k : Nat) : Nat :=
  ((parts.take k).flatMap EncodedInstr.bytes).length

/-- The size of the table that the operation takes a constant from. -/
def ConstantPool.sizeFor (pool : ConstantPool) : Opcode → Option Nat
  | .pushInt => some pool.integers.size
  | .pushFloat => some pool.floats.size
  | .pushStr | .pushClass | .loadVar | .storeVar | .getProperty | .invokeMethod | .invokeVirtual =>
    some pool.strings.size
  | _ => none

/-! ## Conforming classes -/

/-- The method's code is the given instructions, and their operands refer to constants, locals and
instructions that exist. -/
structure CompiledMethod.Conforms (pool : ConstantPool) (m : CompiledMethod)
    (parts : List EncodedInstr) : Prop where
  params_le_locals : m.paramCount.toNat ≤ m.localCount.toNat
  code_eq : m.code.toList = parts.flatMap EncodedInstr.bytes
  constants : ∀ e ∈ parts, ∀ n, pool.sizeFor e.opcode = some n → e.constantIndex < n
  locals : ∀ e ∈ parts, e.opcode = .loadLocal ∨ e.opcode = .storeLocal →
    e.slot < m.localCount.toNat
  /-- A jump leads to the start of an instruction, counted from the one behind it. -/
  jumps : ∀ k e, parts[k]? = some e → (∃ kind, e.opcode = .jump kind) →
    ∃ j < parts.length, (startOf parts j : Int) = startOf parts (k + 1) + e.displacement
  /-- There is a last instruction, and nothing behind it is reached from it in line. -/
  last : ∃ e, parts.getLast? = some e ∧
    (e.opcode = .jump .always ∨ e.opcode = .return ∨ e.opcode = .returnNull)

/-- A method conforms with one list of instructions at most. -/
theorem CompiledMethod.Conforms.unique {pool : ConstantPool} {m : CompiledMethod}
    {parts parts' : List EncodedInstr} (h : m.Conforms pool parts) (h' : m.Conforms pool parts') :
    parts = parts' :=
  EncodedInstr.eq_of_flatMap_bytes_eq (h.code_eq.symm.trans h'.code_eq)

/-- A class with the current header, distinct method names and conforming methods. -/
structure ClassFile.Conforms (c : ClassFile) : Prop where
  magic_eq : c.magic = standardMagic
  version_eq : c.version = currentVersion
  name_ne_empty : c.name ≠ ""
  distinct : c.methods.Pairwise fun m m' ↦ m.name ≠ m'.name
  methods : ∀ m ∈ c.methods, ∃ parts, m.Conforms c.constants parts

/-! ## Typed instructions -/

theorem Opcode.byte_of_ofByte? {b : UInt8} {op : Opcode} (h : ofByte? b = some op) :
    op.byte = b := by
  rw [← UInt8.toNat_inj]
  rw [ofByte?] at h
  split at h
  case h_37 => cases h
  all_goals
    next hb =>
      injection h with h
      rw [← h, hb]
      rfl

namespace Instr

section Operands

variable {bytes : List UInt8}

theorem toNat_wide (h : bytes.length ≤ 4) :
    (UInt32.ofNat (LittleEndian.decode bytes)).toNat = LittleEndian.decode bytes := by
  refine UInt32.toNat_ofNat_of_lt' (Nat.lt_of_lt_of_le (Reader.decode_lt bytes) ?_)
  exact Nat.pow_le_pow_right (by decide) h

theorem toNat_narrow (h : bytes.length ≤ 2) :
    (UInt16.ofNat (LittleEndian.decode bytes)).toNat = LittleEndian.decode bytes := by
  refine UInt16.toNat_ofNat_of_lt' (Nat.lt_of_lt_of_le (Reader.decode_lt bytes) ?_)
  exact Nat.pow_le_pow_right (by decide) h

theorem encode_wide (h : bytes.length = 4) :
    LittleEndian.encode 4 (UInt32.ofNat (LittleEndian.decode bytes)).toNat = bytes := by
  rw [toNat_wide (Nat.le_of_eq h), ← h, LittleEndian.encode_decode]

theorem encode_narrow (h : bytes.length = 2) :
    LittleEndian.encode 2 (UInt16.ofNat (LittleEndian.decode bytes)).toNat = bytes := by
  rw [toNat_narrow (Nat.le_of_eq h), ← h, LittleEndian.encode_decode]

/-- Reading operands as numbers and writing these gives the operands again. -/
theorem operands_ofOperands {op : Opcode} (h : bytes.length = op.operandSize) :
    (ofOperands op bytes).operands = bytes := by
  cases op with
  | pushInt | pushFloat | pushStr | pushClass | loadVar | storeVar | getProperty | jump =>
    have hwhole : bytes.take 4 = bytes := List.take_of_length_le (Nat.le_of_eq h)
    simp only [ofOperands, hwhole]
    exact encode_wide h
  | loadLocal | storeLocal | newList =>
    have hwhole : bytes.take 2 = bytes := List.take_of_length_le (Nat.le_of_eq h)
    simp only [ofOperands, hwhole]
    exact encode_narrow h
  | invokeMethod | invokeVirtual =>
    have hlength : bytes.length = 6 := h
    have hfront : (bytes.take 4).length = 4 := by rw [List.length_take, hlength]; rfl
    have hback : ((bytes.drop 4).take 2).length = 2 := by
      rw [List.length_take, List.length_drop, hlength]; rfl
    have hrest : (bytes.drop 4).take 2 = bytes.drop 4 :=
      List.take_of_length_le (Nat.le_of_eq (by rw [List.length_drop, hlength]))
    simp only [ofOperands, operands]
    rw [encode_wide hfront, encode_narrow hback, hrest, List.take_append_drop]
  | _ =>
    exact (List.eq_nil_of_length_eq_zero h).symm

end Operands

/-- An instruction that is decoded is the bytes it was decoded from. -/
theorem encode_of_decode {byte : UInt8} {following : List UInt8} {i : Instr}
    (h : decode byte following = .ok i) :
    i.encode = byte :: following.take i.opcode.operandSize := by
  rw [decode] at h
  split at h
  · cases h
  next op hop =>
  dsimp only at h
  split at h
  · cases h
  next hlength =>
  injection h with h
  have hwhole : (following.take op.operandSize).length = op.operandSize := by
    have hle := List.length_take_le op.operandSize following
    omega
  rw [encode, ← h, opcode_ofOperands, operands_ofOperands hwhole, Opcode.byte_of_ofByte? hop]

/-- An instruction that is read stands in the code byte by byte. -/
theorem drop_of_at? {code : Array UInt8} {o : Nat} {i : Instr} (h : at? code o = some (.ok i)) :
    code.toList.drop o = i.encode ++ code.toList.drop (o + i.size) := by
  rw [at?, Option.map_eq_some_iff] at h
  obtain ⟨byte, hbyte, hdecode⟩ := h
  obtain ⟨ho, rfl⟩ := Array.getElem?_eq_some_iff.mp hbyte
  -- No instruction takes more operands than the six bytes it is decoded from.
  have hfollowing : (code.extract (o + 1) (o + 7)).toList.take i.opcode.operandSize =
      (code.toList.drop (o + 1)).take i.opcode.operandSize := by
    have hle : i.opcode.operandSize ≤ 6 := i.length_operands ▸ i.length_operands_le
    rw [Array.toList_extract, List.extract_eq_take_drop, List.take_take, Nat.add_sub_add_left,
      Nat.min_eq_left hle]
  have hbehind : code.toList.drop (o + i.size) =
      (code.toList.drop (o + 1)).drop i.opcode.operandSize := by
    rw [List.drop_drop, size, Nat.add_assoc]
  rw [encode_of_decode hdecode, hfollowing, hbehind, List.cons_append, List.take_append_drop]
  exact List.drop_eq_getElem_cons (by simpa using ho)

/-- Instructions that stand in code to its end are the bytes of the code. -/
theorem drop_eq_of_standAt {code : Array UInt8} {o : Nat} {is : List Instr}
    (h : StandAt code o is) (hend : o + codeSize is = code.size) :
    code.toList.drop o = is.flatMap encode := by
  induction is generalizing o with
  | nil => exact List.drop_eq_nil_of_le (by simp at hend ⊢; omega)
  | cons i is ih =>
    rw [codeSize_cons, ← Nat.add_assoc] at hend
    rw [drop_of_at? h.1, ih h.2 hend, List.flatMap_cons]

/-- Code is read as the given instructions exactly if it is their bytes. -/
theorem standAt_iff_eq_flatMap {code : Array UInt8} {is : List Instr} :
    StandAt code 0 is ∧ codeSize is = code.size ↔ code.toList = is.flatMap encode := by
  constructor
  · rintro ⟨hstand, hsize⟩
    rw [← drop_eq_of_standAt hstand (by rw [Nat.zero_add, hsize]), List.drop_zero]
  · intro hcode
    have hstand := standAt_flatMap_encode is [] []
    rw [List.append_nil, List.nil_append, ← hcode, Array.toArray_toList] at hstand
    exact ⟨hstand, by rw [← length_flatMap_encode, ← hcode, Array.length_toList]⟩

end Instr

namespace EncodedInstr

/-- The instruction with these bytes. -/
def toInstr (e : EncodedInstr) : Instr := .ofOperands e.opcode e.operands

@[simp] theorem opcode_toInstr (e : EncodedInstr) : e.toInstr.opcode = e.opcode :=
  Instr.opcode_ofOperands _ _

@[simp] theorem encode_toInstr (e : EncodedInstr) : e.toInstr.encode = e.bytes := by
  rw [Instr.encode, opcode_toInstr, toInstr, Instr.operands_ofOperands e.length_operands, bytes]

/-- The bytes of an instruction. -/
def ofInstr (i : Instr) : EncodedInstr := ⟨i.opcode, i.operands, i.length_operands⟩

theorem toInstr_ofInstr (i : Instr) : (ofInstr i).toInstr = i := Instr.ofOperands_operands i

theorem map_toInstr_map_ofInstr (is : List Instr) : (is.map ofInstr).map toInstr = is := by
  rw [List.map_map, (funext toInstr_ofInstr : toInstr ∘ ofInstr = id), List.map_id]

theorem flatMap_encode_map (parts : List EncodedInstr) :
    (parts.map toInstr).flatMap Instr.encode = parts.flatMap bytes := by
  rw [List.flatMap_map]
  simp only [encode_toInstr]

theorem startOf_eq (parts : List EncodedInstr) (k : Nat) :
    startOf parts k = codeSize ((parts.map toInstr).take k) := by
  rw [startOf, ← flatMap_encode_map, List.map_take, length_flatMap_encode]

/-- Behind an instruction starts the next one, or the code ends. -/
theorem startOf_succ {parts : List EncodedInstr} {k : Nat} {e : EncodedInstr}
    (h : parts[k]? = some e) : startOf parts (k + 1) = startOf parts k + e.toInstr.size := by
  have hlength : e.bytes.length = e.toInstr.size := by rw [← encode_toInstr, Instr.length_encode]
  rw [startOf, List.take_add_one, h, Option.toList_some, List.flatMap_append, List.length_append,
    List.flatMap_singleton, hlength, startOf]

/-! ### Operands -/

theorem constantExists_toInstr {pool : ConstantPool} {e : EncodedInstr} :
    e.toInstr.ConstantExists pool ↔
      ∀ n, pool.sizeFor e.opcode = some n → e.constantIndex < n := by
  obtain ⟨op, operands, hlength⟩ := e
  have hwide := Instr.toNat_wide (List.length_take_le 4 operands)
  cases op <;> simp [toInstr, Instr.ofOperands, Instr.ConstantExists, ConstantPool.sizeFor,
    constantIndex, hwide]

theorem slotExists_toInstr {count : Nat} {e : EncodedInstr} :
    e.toInstr.SlotExists count ↔
      (e.opcode = .loadLocal ∨ e.opcode = .storeLocal → e.slot < count) := by
  obtain ⟨op, operands, hlength⟩ := e
  cases op with
  | loadLocal | storeLocal =>
    have hle : operands.length ≤ 2 := Nat.le_of_eq hlength
    have hnarrow := Instr.toNat_narrow hle
    simp [toInstr, Instr.ofOperands, Instr.SlotExists, slot, List.take_of_length_le hle, hnarrow]
  | _ => simp [toInstr, Instr.ofOperands, Instr.SlotExists]

/-- Two's complement. -/
theorem toInt_toInt32 (x : UInt32) : x.toInt32.toInt =
    if 2 * x.toNat < UInt32.size then (x.toNat : Int) else x.toNat - UInt32.size := rfl

theorem exists_toInstr_eq_jump {e : EncodedInstr} {kind : JumpKind} (h : e.opcode = .jump kind) :
    ∃ distance : Int32, e.toInstr = .jump kind distance ∧ distance.toInt = e.displacement := by
  obtain ⟨op, operands, hlength⟩ := e
  cases h
  have hle : operands.length ≤ 4 := Nat.le_of_eq hlength
  have hwhole : operands.take 4 = operands := List.take_of_length_le hle
  refine ⟨(UInt32.ofNat (LittleEndian.decode operands)).toInt32, ?_, ?_⟩
  · rw [toInstr, Instr.ofOperands, hwhole]
  · rw [toInt_toInt32, Instr.toNat_wide hle, displacement]

end EncodedInstr

/-! ## The verifier -/

namespace CompiledMethod

open EncodedInstr

variable {pool : ConstantPool} {m : CompiledMethod} {parts : List EncodedInstr}

theorem instructions_eq_iff :
    m.instructions = .ok (place 0 (parts.map toInstr)) ↔ m.code.toList = parts.flatMap bytes := by
  rw [← flatMap_encode_map, ← Instr.standAt_iff_eq_flatMap, instructions_eq_ok_iff]
  constructor
  · rintro ⟨is, hplace, hcode⟩
    rwa [← map_instr_place 0 (parts.map toInstr), hplace, map_instr_place]
  · intro hcode
    exact ⟨_, rfl, hcode⟩

theorem forall_mem_place {P : Instr → Prop} :
    (∀ p ∈ place 0 (parts.map toInstr), P p.instr) ↔ ∀ e ∈ parts, P e.toInstr := by
  rw [← List.forall_mem_map, map_instr_place, List.forall_mem_map]

/-- The instruction with a number is placed at its start. -/
theorem mem_place_map_iff {p : Placed} :
    p ∈ place 0 (parts.map toInstr) ↔
      ∃ k e, parts[k]? = some e ∧ p = ⟨startOf parts k, e.toInstr⟩ := by
  rw [mem_place_iff]
  constructor
  · rintro ⟨k, hk, hoffset⟩
    rw [List.getElem?_map, Option.map_eq_some_iff] at hk
    obtain ⟨e, he, hinstr⟩ := hk
    refine ⟨k, e, he, ?_⟩
    rw [startOf_eq, hinstr, ← Nat.zero_add (codeSize _), ← hoffset]
  · rintro ⟨k, e, he, rfl⟩
    refine ⟨k, ?_, ?_⟩
    · rw [List.getElem?_map, he, Option.map_some]
    · rw [startOf_eq, Nat.zero_add]

theorem lands_iff :
    (∀ p ∈ place 0 (parts.map toInstr), p.Lands (place 0 (parts.map toInstr))) ↔
      ∀ k e, parts[k]? = some e → (∃ kind, e.opcode = .jump kind) →
        ∃ j < parts.length, (startOf parts j : Int) = startOf parts (k + 1) + e.displacement := by
  constructor
  · rintro h k e he ⟨kind, hkind⟩
    obtain ⟨distance, hjump, hdistance⟩ := exists_toInstr_eq_jump hkind
    obtain ⟨q, hq, hoffset⟩ := h _ (mem_place_map_iff.mpr ⟨k, e, he, rfl⟩) kind distance hjump
    obtain ⟨j, e', hj, rfl⟩ := mem_place_map_iff.mp hq
    refine ⟨j, (List.getElem?_eq_some_iff.mp hj).1, ?_⟩
    rw [startOf_succ he, ← hdistance]
    exact hoffset
  · intro h p hp kind distance hjump
    obtain ⟨k, e, he, rfl⟩ := mem_place_map_iff.mp hp
    have hkind : e.opcode = .jump kind := by
      rw [← opcode_toInstr, show e.toInstr = .jump kind distance from hjump, Instr.opcode]
    obtain ⟨distance', hjump', hdistance⟩ := exists_toInstr_eq_jump hkind
    obtain rfl : distance' = distance := by
      injection hjump'.symm.trans hjump
    obtain ⟨j, hj, hstart⟩ := h k e he ⟨kind, hkind⟩
    refine ⟨_, mem_place_map_iff.mpr ⟨j, parts[j], List.getElem?_eq_getElem hj, rfl⟩, ?_⟩
    rw [startOf_succ he, ← hdistance] at hstart
    exact hstart

theorem isTerminator_iff {op : Opcode} :
    op.isTerminator = true ↔ op = .jump .always ∨ op = .return ∨ op = .returnNull := by
  cases op with
  | jump kind => cases kind <;> simp [Opcode.isTerminator]
  | _ => simp [Opcode.isTerminator]

theorem last_iff :
    (∃ p, (place 0 (parts.map toInstr)).getLast? = some p ∧ p.instr.opcode.isTerminator = true) ↔
      ∃ e, parts.getLast? = some e ∧
        (e.opcode = .jump .always ∨ e.opcode = .return ∨ e.opcode = .returnNull) := by
  have hlast : (place 0 (parts.map toInstr)).getLast?.map Placed.instr =
      parts.getLast?.map toInstr := by
    rw [← List.getLast?_map, map_instr_place, List.getLast?_map]
  simp only [← isTerminator_iff]
  constructor
  · rintro ⟨p, hp, hterminator⟩
    rw [hp, Option.map_some] at hlast
    obtain ⟨e, he, hinstr⟩ := Option.map_eq_some_iff.mp hlast.symm
    exact ⟨e, he, by rwa [← opcode_toInstr, hinstr]⟩
  · rintro ⟨e, he, hterminator⟩
    rw [he, Option.map_some] at hlast
    obtain ⟨p, hp, hinstr⟩ := Option.map_eq_some_iff.mp hlast
    exact ⟨p, hp, by rwa [hinstr, opcode_toInstr]⟩

/-- What was read conforms exactly if it is well formed. -/
theorem wellFormed_iff_conforms :
    m.WellFormed pool (place 0 (parts.map toInstr)) ↔ m.Conforms pool parts := by
  constructor
  · intro h
    exact ⟨UInt16.le_iff_toNat_le.mp h.params_le_locals, instructions_eq_iff.mp h.instructions_eq,
      fun e he ↦ constantExists_toInstr.mp (forall_mem_place.mp h.constants e he),
      fun e he ↦ slotExists_toInstr.mp (forall_mem_place.mp h.slots e he),
      lands_iff.mp h.lands, last_iff.mp h.last⟩
  · intro h
    exact ⟨UInt16.le_iff_toNat_le.mpr h.params_le_locals, instructions_eq_iff.mpr h.code_eq,
      forall_mem_place.mpr fun e he ↦ constantExists_toInstr.mpr (h.constants e he),
      forall_mem_place.mpr fun e he ↦ slotExists_toInstr.mpr (h.locals e he),
      lands_iff.mpr h.jumps, last_iff.mpr h.last⟩

theorem exists_wellFormed_iff :
    (∃ placed, m.WellFormed pool placed) ↔ ∃ parts, m.Conforms pool parts := by
  constructor
  · rintro ⟨placed, h⟩
    obtain ⟨is, rfl, -⟩ := instructions_eq_ok_iff.mp h.instructions_eq
    rw [← map_toInstr_map_ofInstr is] at h
    exact ⟨_, wellFormed_iff_conforms.mp h⟩
  · rintro ⟨parts, h⟩
    exact ⟨_, wellFormed_iff_conforms.mpr h⟩

end CompiledMethod

/-- The verifier accepts exactly the classes that conform. -/
theorem ClassFile.verify_eq_ok_iff_conforms (c : ClassFile) : c.verify = .ok () ↔ c.Conforms := by
  rw [verify_eq_ok_iff]
  constructor
  · rintro ⟨hmagic, hversion, hname, hnodup, hmethods⟩
    exact ⟨hmagic, hversion, hname, List.pairwise_map.mp hnodup,
      fun m hm ↦ CompiledMethod.exists_wellFormed_iff.mp (hmethods m hm)⟩
  · rintro ⟨hmagic, hversion, hname, hdistinct, hmethods⟩
    exact ⟨hmagic, hversion, hname, List.pairwise_map.mpr hdistinct,
      fun m hm ↦ CompiledMethod.exists_wellFormed_iff.mpr (hmethods m hm)⟩

end BuildScript
