import BuildScript.Proofs.Bytecode.Assembling
import BuildScript.Proofs.Machine.FrameStep

/-!
# Running assembled code

Execution reads the operands of an instruction one after the other, each with its own width, and no
table of sizes is consulted. `Opcode.readOperands` is this reading, operation by operation. It takes
as many bytes as the table says (`takes_readOperands`), from whatever stands there, and it reads what
is written for an instruction (`reads_instr`). A frame runs an instruction exactly if it can be read
in this way, and goes on where the reader is then (`Frame.step_of_instr`).

So code that was put together call by call has the same instructions for all who look at it: those
who wrote it, the verifier, which steps over operands by their size, and a frame that runs it.
-/

namespace BuildScript

namespace Reader

variable {α β : Type} {r : Reader α} {k : α → Reader β} {n m : Nat}

/-! ## Reading by fixed widths -/

/-- Whenever the reader gives something, it has taken the next `n` bytes. -/
def Takes (r : Reader α) (n : Nat) : Prop :=
  ∀ c x c', r c = .ok x c' →
    n ≤ c.rest.length ∧ c'.rest = c.rest.drop n ∧ c'.position = c.position + n

theorem takes_pure (x : α) : Takes (pure x) 0 := by
  intro c y c' h
  cases h
  exact ⟨Nat.zero_le _, rfl, rfl⟩

theorem Takes.bind (hr : Takes r n) (hk : ∀ x, Takes (k x) m) : Takes (r >>= k) (n + m) := by
  intro c y c' h
  change EStateM.bind r k c = .ok y c' at h
  rw [EStateM.bind] at h
  split at h
  · next x c₁ hx =>
    obtain ⟨hn, hrest, hposition⟩ := hr c x c₁ hx
    obtain ⟨hm, hrest', hposition'⟩ := hk x c₁ y c' h
    rw [hrest, List.length_drop] at hm
    refine ⟨by omega, ?_, ?_⟩
    · rw [hrest', hrest, List.drop_drop]
    · rw [hposition', hposition, Nat.add_assoc]
  · cases h

/-- A result that only depends on what was read takes no more bytes. -/
theorem Takes.map (hr : Takes r n) (f : α → β) : Takes (do return f (← r)) n :=
  hr.bind fun x ↦ takes_pure (f x)

theorem takes_bytes (n : Nat) : Takes (bytes n) n := by
  intro c front c' h
  rw [bytes] at h
  split at h
  · split at h
    · next front rest hsplit =>
      cases h
      rw [LittleEndian.split?] at hsplit
      split at hsplit
      · cases hsplit
      · next hlength =>
        cases hsplit
        rw [List.length_take] at hlength
        exact ⟨by omega, rfl, rfl⟩
    · cases h
  · cases h

theorem takes_number (n : Nat) : Takes (number n) n := (takes_bytes n).map _

theorem takes_byte : Takes byte 1 := (takes_number 1).map _

theorem takes_half : Takes half 2 := (takes_number 2).map _

theorem takes_word : Takes word 4 := (takes_number 4).map _

theorem takes_signedWord : Takes signedWord 4 := takes_word.map _

theorem reads_signedWord (x : Int32) : Reads signedWord (Wire.word x.toUInt32) x :=
  (reads_word x.toUInt32).map (·.toInt32)

/-- What is read as a byte stands in front. -/
theorem rest_of_byte {c c' : ByteCursor} {b : UInt8} (h : byte c = .ok b c') :
    c.rest = b :: c'.rest ∧ c'.position = c.position + 1 ∧ c'.inside = true := by
  obtain ⟨hlength, -, -⟩ := takes_byte c b c' h
  obtain ⟨position, rest, inside⟩ := c
  obtain ⟨x, rest, rfl⟩ := List.exists_cons_of_length_pos hlength
  cases inside with
  | false => cases h
  | true =>
    rw [show byte ⟨position, x :: rest, true⟩ = _ from reads_byte x position rest] at h
    cases h
    exact ⟨rfl, rfl, rfl⟩

/-- The part of an operation code behind the look at the position. -/
def opcodeFrom (position : Nat) : Reader Opcode := do
  let b ← byte
  match Opcode.ofByte? b with
  | some op => return op
  | none => throw (.invalidOpcode b position)

theorem opcode_eq (c : ByteCursor) : opcode c = opcodeFrom c.position c := rfl

theorem reads_opcode (op : Opcode) : Reads opcode [op.byte] op := by
  intro position rest
  rw [opcode_eq, opcodeFrom, bind_of_ok (reads_byte op.byte position rest), Opcode.ofByte?_byte]
  rfl

/-- What is read as an operation is its byte. -/
theorem rest_of_opcode {c c' : ByteCursor} {op : Opcode} (h : opcode c = .ok op c') :
    c.rest = op.byte :: c'.rest ∧ c'.position = c.position + 1 ∧ c'.inside = true := by
  rw [opcode_eq] at h
  change EStateM.bind byte _ c = .ok op c' at h
  rw [EStateM.bind] at h
  split at h
  · next b c₁ hb =>
    cases hop : Opcode.ofByte? b with
    | none =>
      rw [hop] at h
      cases h
    | some op' =>
      rw [hop] at h
      cases h
      rw [Opcode.byte_of_ofByte? hop]
      exact rest_of_byte hb
  · cases h

end Reader

open Reader

/-- Reads the operands of an operation, one after the other. -/
def Opcode.readOperands : Opcode → Reader Instr
  | .nop => return .nop
  | .pop => return .pop
  | .dup => return .dup
  | .pushNull => return .pushNull
  | .pushTrue => return .pushTrue
  | .pushFalse => return .pushFalse
  | .pushInt => return .pushInt (← word)
  | .pushFloat => return .pushFloat (← word)
  | .pushStr => return .pushStr (← word)
  | .pushClass => return .pushClass (← word)
  | .loadLocal => return .loadLocal (← half)
  | .storeLocal => return .storeLocal (← half)
  | .loadVar => return .loadVar (← word)
  | .storeVar => return .storeVar (← word)
  | .getProperty => return .getProperty (← word)
  | .arithmetic op => return .arithmetic op
  | .negate => return .negate
  | .compare op => return .compare op
  | .not => return .not
  | .jump kind => return .jump kind (← signedWord)
  | .invokeMethod => do
    let name ← word
    return .invokeMethod name (← half)
  | .invokeVirtual => do
    let name ← word
    return .invokeVirtual name (← half)
  | .newList => return .newList (← half)
  | .return => return .return
  | .returnNull => return .returnNull

theorem takes_readOperands (op : Opcode) : Takes op.readOperands op.operandSize := by
  cases op with
  | pushInt | pushFloat | pushStr | pushClass | loadVar | storeVar | getProperty =>
    exact takes_word.map _
  | loadLocal | storeLocal | newList => exact takes_half.map _
  | jump kind => exact takes_signedWord.map _
  | invokeMethod | invokeVirtual => exact takes_word.bind fun name ↦ takes_half.map _
  | _ => exact takes_pure _

theorem reads_readOperands (i : Instr) : Reads i.opcode.readOperands i.operands i := by
  cases i with
  | pushInt index | pushFloat index | pushStr index | pushClass index | loadVar index
  | storeVar index | getProperty index => exact (reads_word index).map _
  | loadLocal count | storeLocal count | newList count => exact (reads_half count).map _
  | jump kind distance => exact (reads_signedWord distance).map _
  | invokeMethod name count | invokeVirtual name count =>
    exact (reads_word name).bind ((reads_half count).map _)
  | _ => exact reads_pure _

/-- Reads an operation and its operands. -/
def Reader.instr : Reader Instr := do (← opcode).readOperands

theorem reads_instr (i : Instr) : Reads Reader.instr i.encode i :=
  (reads_opcode i.opcode).bind (reads_readOperands i)

/-- What is read as an instruction is its bytes. -/
theorem rest_of_instr {c c' : ByteCursor} {i : Instr} (h : Reader.instr c = .ok i c') :
    c.rest = i.encode ++ c'.rest ∧ c'.position = c.position + i.size := by
  change EStateM.bind opcode _ c = .ok i c' at h
  rw [EStateM.bind] at h
  split at h
  · next op c₁ hop =>
    obtain ⟨hrest, hposition, hinside⟩ := rest_of_opcode hop
    obtain ⟨hlength, hrest', hposition'⟩ := takes_readOperands op c₁ i c' h
    have htaken : (c₁.rest.take op.operandSize).length = op.operandSize := by
      rw [List.length_take]
      omega
    have hbytes : c₁.rest = c₁.rest.take op.operandSize ++ c'.rest := by
      rw [hrest', List.take_append_drop]
    -- The bytes that were taken are the operands of some instruction, so it was this one.
    have hread := reads_readOperands (.ofOperands op (c₁.rest.take op.operandSize))
    rw [Instr.opcode_ofOperands, Instr.operands_ofOperands htaken] at hread
    have hread := hread c₁.position c'.rest
    rw [← hbytes, ← hinside, h] at hread
    obtain rfl : i = .ofOperands op (c₁.rest.take op.operandSize) := by
      injection hread
    rw [Instr.encode, Instr.size, Instr.opcode_ofOperands, Instr.operands_ofOperands htaken]
    refine ⟨?_, ?_⟩
    · rw [hrest, List.cons_append, ← hbytes]
    · rw [hposition', hposition, Nat.add_assoc]
  · cases h

theorem seek_of_at? {code : Array UInt8} {o : Nat} {i : Instr} (h : Instr.at? code o = some (.ok i)) :
    ByteCursor.seek code.toList o =
      ⟨o, i.encode ++ code.toList.drop (o + i.size), true⟩ := by
  have hinside : o ≤ code.toList.length := by
    have := Instr.add_size_le_of_at? h
    rw [Array.length_toList]
    omega
  rw [ByteCursor.seek, Instr.drop_of_at? h, decide_eq_true hinside]

/-- There is an instruction if and only if its operation and its operands can be read. -/
theorem Instr.at?_eq_ok_iff {code : Array UInt8} {o : Nat} {i : Instr} :
    at? code o = some (.ok i) ↔ ∃ c, Reader.instr (.seek code.toList o) = .ok i c := by
  constructor
  · intro h
    rw [seek_of_at? h]
    exact ⟨_, reads_instr i _ _⟩
  · rintro ⟨c, h⟩
    obtain ⟨hrest, -⟩ := rest_of_instr h
    have hrest : code.toList.drop o = i.encode ++ c.rest := hrest
    have hfront : (code.toList.take o).length = o := by
      have hlength := congrArg List.length hrest
      rw [List.length_drop, List.length_append, Instr.length_encode] at hlength
      have := i.size_pos
      rw [List.length_take]
      omega
    have hat := Instr.at?_encode (code.toList.take o) c.rest i
    rwa [← hrest, List.take_append_drop, Array.toArray_toList, hfront] at hat

/-- A frame runs what can be read at its offset, and it goes on where the reader is then. -/
theorem Frame.step_of_instr {f : Frame} {i : Instr} {c : ByteCursor}
    (h : Reader.instr (.seek f.method.code.toList f.offset) = .ok i c) (className : String)
    (s : ScriptState) :
    f.step className s = { f with offset := c.position }.execute className s i := by
  rw [step_of_at? (Instr.at?_eq_ok_iff.mpr ⟨c, h⟩), (rest_of_instr h).2]
  rfl

/-! ## Code for all readers -/

/-- How the instruction is run where it stands in the code: its operation is read, and then its
operands are, which advances by exactly their size, to the next instruction in line. There a frame
goes on that runs the instruction. -/
structure Placed.RunsIn (code : Array UInt8) (p : Placed) : Prop where
  reads : ∃ behind after : ByteCursor,
    opcode (.seek code.toList p.offset) = .ok p.instr.opcode behind ∧
      p.instr.opcode.readOperands behind = .ok p.instr after ∧
      after.position = behind.position + p.instr.opcode.operandSize ∧ after.position = p.next
  runs : ∀ (f : Frame) (className : String) (s : ScriptState), f.method.code = code →
    f.offset = p.offset → f.step className s = { f with offset := p.next }.execute className s p.instr

theorem Placed.runsIn_of_at? {code : Array UInt8} {p : Placed}
    (h : Instr.at? code p.offset = some (.ok p.instr)) : p.RunsIn code := by
  constructor
  · rw [seek_of_at? h]
    refine ⟨_, _, reads_opcode p.instr.opcode p.offset _, reads_readOperands p.instr _ _, ?_, ?_⟩
    · rw [p.instr.length_operands]
    · rw [p.instr.length_operands, Placed.next, Instr.size, Nat.add_assoc]
      rfl
  · intro f className s hcode hoffset
    obtain ⟨after, hinstr⟩ := Instr.at?_eq_ok_iff.mp h
    have hnext : after.position = p.next := (rest_of_instr hinstr).2
    rw [← hcode, ← hoffset] at hinstr
    rw [Frame.step_of_instr hinstr, hnext]

/-- However code is put together, those who write it, verify it and run it agree on its
instructions. Patching a jump changes none but the four bytes of its operand. The verifier reads the
instructions that were asked for at the offsets where they were asked for, with the same operands,
and jumps lead to where they are aimed. Operands are read by as many bytes as they have, when the
instructions are run one by one. -/
theorem Assembly.boundaries_agree {a : Assembly} (h : a.Reachable) :
    (∀ offset kind operand, ⟨offset, .pending kind operand⟩ ∈ a.emitted →
      (a.buffer.patchJump operand).offset = a.buffer.offset ∧
        ∀ k, k < offset + 1 ∨ offset + 5 ≤ k →
          (a.buffer.patchJump operand).bytes[k]? = a.buffer.bytes[k]?) ∧
    (∀ op : Opcode, Takes op.readOperands op.operandSize) ∧
    (a.buffer.offset < 2 ^ 31 →
      ∃ placed, (∀ m : CompiledMethod, m.code = a.buffer.bytes → m.instructions = .ok placed) ∧
        List.Forall₂ Emitted.StoredAs a.emitted placed ∧ ∀ p ∈ placed, p.RunsIn a.buffer.bytes) := by
  have hlaid := laid_of_reachable h
  refine ⟨?_, takes_readOperands, ?_⟩
  · intro offset kind operand he
    obtain ⟨rfl, hinside⟩ := hlaid.operand_of_pending he
    exact CodeBuffer.patch_untouched hinside _
  · intro hsize
    refine ⟨_, fun m hm ↦ hlaid.instructions_eq hm, hlaid.storedAs hsize, ?_⟩
    intro p hp
    apply Placed.runsIn_of_at?
    rw [← hlaid.place_eq] at hp
    exact at?_of_mem_place (Instr.standAt_iff_eq_flatMap.mpr hlaid.bytes_eq).1 hp

/-- A loop that is left by a jump forward, before and after this jump is patched. -/
theorem loop_boundaries_agree :
    let unpatched : Assembly :=
      { buffer := ⟨#[0x12, 0, 0, 0, 0, 0x41, 0, 0, 0, 0, 0x01, 0x40, 0xF0, 0xFF, 0xFF, 0xFF]⟩
        emitted := [⟨0, .instr (.loadVar 0)⟩, ⟨5, .pending .ifFalse 6⟩, ⟨10, .instr .pop⟩,
          ⟨11, .aimed .always 0⟩] }
    let patched : Assembly :=
      { buffer := ⟨#[0x12, 0, 0, 0, 0, 0x41, 6, 0, 0, 0, 0x01, 0x40, 0xF0, 0xFF, 0xFF, 0xFF]⟩
        emitted := [⟨0, .instr (.loadVar 0)⟩, ⟨5, .aimed .ifFalse 16⟩, ⟨10, .instr .pop⟩,
          ⟨11, .aimed .always 0⟩] }
    (unpatched.Reachable ∧ patched.Reachable ∧ patched.buffer.offset < 2 ^ 31) ∧
      (unpatched.buffer.patchJump 6).offset = 16 ∧
      ∃ placed, (∀ m : CompiledMethod, m.code = patched.buffer.bytes → m.instructions = .ok placed) ∧
        List.Forall₂ Emitted.StoredAs patched.emitted placed ∧
        ∀ p ∈ placed, p.RunsIn patched.buffer.bytes := by
  intro unpatched patched
  have hunpatched : unpatched.Reachable :=
    (((Relation.ReflTransGen.single (.emit {} (.loadVar 0) rfl)).tail (.jump _ .ifFalse)).tail
      (.emit _ .pop rfl)).tail (.jumpTo _ .always 0 (Nat.zero_le _))
  have hpatched : patched.Reachable :=
    hunpatched.tail (.patch _ [⟨0, .instr (.loadVar 0)⟩]
      [⟨10, .instr .pop⟩, ⟨11, .aimed .always 0⟩] 5 .ifFalse 6)
  have hsize : patched.buffer.offset < 2 ^ 31 := by decide
  obtain ⟨hpatch, -, -⟩ := Assembly.boundaries_agree hunpatched
  obtain ⟨-, -, hread⟩ := Assembly.boundaries_agree hpatched
  exact ⟨⟨hunpatched, hpatched, hsize⟩, (hpatch 5 .ifFalse 6 (by decide)).1, hread hsize⟩

end BuildScript
