import BuildScript.Bytecode.CodeBuffer
import BuildScript.Proofs.Bytecode.Conformance
import Mathlib.Data.List.Forall2
import Mathlib.Logic.Relation

/-!
# Assembling code

Code that is put together by hand, call by call. An `Assembly` is a buffer with a record of what was
asked for: at which offset, with which operands and, for a jump, where to. `Assembly.Step` is one
call. Jumps back are written with their distance, and jumps forward are written without it and
patched once, at any later time.

The invariant `Assembly.Laid` says that the bytes are those of the recorded instructions, one behind
the other from the recorded offsets on. A call that adds an instruction puts its bytes behind them,
and a patch changes one instruction into another one of the same size in its place, so everything
around it stays as it is. The distance of a jump is computed modulo `2 ^ 32`, and it is right as long
as the offsets are less than `2 ^ 31`.
-/

namespace BuildScript

open Relation

/-! ## What calls do to a buffer -/

namespace CodeBuffer

/-- Adds an instruction that is no jump, by the call for operands like its own. -/
def emit (b : CodeBuffer) (i : Instr) : CodeBuffer :=
  match i with
  | .pushInt index | .pushFloat index | .pushStr index | .pushClass index | .loadVar index
  | .storeVar index | .getProperty index => b.indexed i.opcode index
  | .loadLocal count | .storeLocal count | .newList count => b.counted i.opcode count
  | .invokeMethod name count | .invokeVirtual name count => b.invoke i.opcode name count
  | _ => b.opcode i.opcode

variable {b : CodeBuffer}

@[simp] theorem toList_append (b : CodeBuffer) (xs : List UInt8) :
    (b.append xs).bytes.toList = b.bytes.toList ++ xs := Array.toList_appendList

@[simp] theorem toList_opcode (b : CodeBuffer) (op : Opcode) :
    (b.opcode op).bytes.toList = b.bytes.toList ++ [op.byte] := Array.toList_push

theorem offset_eq (b : CodeBuffer) : b.offset = b.bytes.toList.length := Array.length_toList.symm

theorem toList_emit {i : Instr} (h : i.opcode.isJump = false) :
    (b.emit i).bytes.toList = b.bytes.toList ++ i.encode := by
  cases i with
  | jump kind distance => cases h
  | pushInt | pushFloat | pushStr | pushClass | loadVar | storeVar | getProperty =>
    rw [emit, indexed, toList_append, toList_opcode, List.append_assoc]
    rfl
  | loadLocal | storeLocal | newList =>
    rw [emit, counted, toList_append, toList_opcode, List.append_assoc]
    rfl
  | invokeMethod | invokeVirtual =>
    rw [emit, invoke, indexed, toList_append, toList_append, toList_opcode, List.append_assoc,
      List.append_assoc]
    rfl
  | _ => exact toList_opcode b _

theorem toList_jump (b : CodeBuffer) (kind : JumpKind) :
    (b.jump (.jump kind)).1.bytes.toList = b.bytes.toList ++ (Instr.jump kind 0).encode := by
  rw [jump, reserve, toList_append, toList_opcode, List.append_assoc]
  rfl

/-- The position that a jump is patched at is that of its operand. -/
theorem jump_position (b : CodeBuffer) (op : Opcode) : (b.jump op).2 = b.offset + 1 := by
  rw [jump, reserve, offset_eq, toList_opcode, List.length_append, offset_eq]
  rfl

theorem toList_jumpTo (b : CodeBuffer) (kind : JumpKind) (target : Nat) :
    (b.jumpTo (.jump kind) target).bytes.toList =
      b.bytes.toList ++ (Instr.jump kind (distance (b.offset + 1) target)).encode := by
  have hoffset : (b.opcode (.jump kind)).offset = b.offset + 1 := by
    rw [offset_eq, toList_opcode, List.length_append, offset_eq]
    rfl
  rw [jumpTo, toList_append, toList_opcode, List.append_assoc, hoffset]
  rfl

theorem toList_patch (b : CodeBuffer) (position : Nat) (x : UInt32) :
    (b.patch position x).bytes.toList =
      b.bytes.toList.take position ++ (Wire.word x ++ b.bytes.toList.drop (position + 4)) := by
  have hall : b.bytes.toList.take b.bytes.size = b.bytes.toList :=
    List.take_of_length_le (Nat.le_of_eq Array.length_toList)
  simp only [patch, Array.toList_append, Array.toList_extract, List.extract_eq_drop_take',
    List.drop_zero, List.append_assoc, hall]

/-- Four bytes are overwritten where they stand. -/
theorem toList_patch_of_append {front old back : List UInt8}
    (hbytes : b.bytes.toList = front ++ (old ++ back)) (hold : old.length = 4) (x : UInt32) :
    (b.patch front.length x).bytes.toList = front ++ (Wire.word x ++ back) := by
  have hdrop : (old ++ back).drop 4 = back := List.drop_left' hold
  rw [toList_patch, hbytes, List.take_left, ← List.drop_drop, List.drop_left, hdrop]

/-- A patch keeps the size and all other bytes. -/
theorem patch_untouched {position : Nat} (h : position + 4 ≤ b.offset) (x : UInt32) :
    (b.patch position x).offset = b.offset ∧
      ∀ k, k < position ∨ position + 4 ≤ k → (b.patch position x).bytes[k]? = b.bytes[k]? := by
  have hword : (Wire.word x).length = 4 := LittleEndian.length_encode 4 _
  rw [offset_eq] at h
  have hfront : (b.bytes.toList.take position).length = position := by
    rw [List.length_take]
    omega
  constructor
  · rw [offset_eq, toList_patch, List.length_append, List.length_append, hfront, hword,
      List.length_drop, offset_eq]
    omega
  · intro k hk
    rw [← Array.getElem?_toList, ← Array.getElem?_toList, toList_patch]
    rcases hk with hk | hk
    · rw [List.getElem?_append_left (hfront.symm ▸ hk), List.getElem?_take_of_lt hk]
    · rw [List.getElem?_append_right (by omega), List.getElem?_append_right (by omega), hfront,
        hword, List.getElem?_drop]
      congr 1
      omega

/-- The distance is exact if the offsets are small enough for it. -/
theorem toInt_distance {operand target : Nat} (hoperand : operand + 4 < 2 ^ 31)
    (htarget : target < 2 ^ 31) :
    (distance operand target).toInt = target - (operand + 4 : Nat) := by
  have hnext : (Int32.ofNat operand + 4).toInt = (operand + 4 : Nat) := by
    have hsum : Int32.ofNat operand + 4 = Int32.ofNat (operand + 4) := by
      rw [Int32.ofNat_add]
      rfl
    rw [hsum, Int32.toInt_ofNat_of_lt hoperand]
  rw [distance, Int32.toInt_sub, Int32.toInt_ofNat_of_lt htarget, hnext, Int.bmod_eq_of_le]
  · omega
  · omega

end CodeBuffer

/-! ## What was asked for -/

/-- What a call asks for. -/
inductive Request where
  /-- An instruction that is no jump. -/
  | instr (i : Instr)
  /-- A jump that is still to be patched, at the position that the call has returned. -/
  | pending (kind : JumpKind) (operand : Nat)
  /-- A jump that is aimed at an offset. -/
  | aimed (kind : JumpKind) (target : Nat)
deriving DecidableEq, Repr

/-- A request, and where the buffer ended when it was made. -/
structure Emitted where
  offset : Nat
  request : Request
deriving DecidableEq, Repr

namespace Emitted

/-- The instruction as it is stored. -/
def instr (e : Emitted) : Instr :=
  match e.request with
  | .instr i => i
  | .pending kind _ => .jump kind 0
  | .aimed kind target => .jump kind (CodeBuffer.distance (e.offset + 1) target)

def placed (e : Emitted) : Placed := ⟨e.offset, e.instr⟩

/-- The request can be made of a buffer of the given size. -/
def Fits (size : Nat) (e : Emitted) : Prop :=
  match e.request with
  | .instr i => i.opcode.isJump = false
  | .pending _ operand => operand = e.offset + 1
  | .aimed _ target => target ≤ size

theorem Fits.mono {e : Emitted} {size size' : Nat} (h : e.Fits size) (hsize : size ≤ size') :
    e.Fits size' := by
  rw [Fits] at h ⊢
  split at h
  · exact h
  · exact h
  · exact Nat.le_trans h hsize

/-- The instruction that is read is the one that was asked for, at the offset where it was asked for.
A jump leads to where it is aimed, counted from the next instruction in line. -/
inductive StoredAs : Emitted → Placed → Prop
  | instr (offset : Nat) (i : Instr) : StoredAs ⟨offset, .instr i⟩ ⟨offset, i⟩
  | pending (offset : Nat) (kind : JumpKind) (operand : Nat) :
    StoredAs ⟨offset, .pending kind operand⟩ ⟨offset, .jump kind 0⟩
  | aimed {offset target : Nat} {kind : JumpKind} {distance : Int32}
    (leads : (Placed.next ⟨offset, .jump kind distance⟩ : Int) + distance.toInt = target) :
    StoredAs ⟨offset, .aimed kind target⟩ ⟨offset, .jump kind distance⟩

theorem storedAs_placed {e : Emitted} {size : Nat} (h : e.Fits size) (hnext : e.placed.next ≤ size)
    (hsize : size < 2 ^ 31) : e.StoredAs e.placed := by
  obtain ⟨offset, request⟩ := e
  cases request with
  | instr i => exact .instr offset i
  | pending kind operand => exact .pending offset kind operand
  | aimed kind target =>
    have hnext : offset + 1 + 4 ≤ size := hnext
    have htarget : target ≤ size := h
    refine .aimed ?_
    rw [CodeBuffer.toInt_distance (Nat.lt_of_le_of_lt hnext hsize) (Nat.lt_of_le_of_lt htarget hsize)]
    change ((offset + 1 + 4 : Nat) : Int) + (target - (offset + 1 + 4 : Nat)) = target
    omega

end Emitted

/-- A buffer, and what its contents were asked for. -/
structure Assembly where
  buffer : CodeBuffer := {}
  emitted : List Emitted := []

namespace Assembly

/-- The assembly after a call that has added an instruction. -/
def added (a : Assembly) (buffer : CodeBuffer) (request : Request) : Assembly :=
  ⟨buffer, a.emitted ++ [⟨a.buffer.offset, request⟩]⟩

/-- One call. -/
inductive Step : Assembly → Assembly → Prop
  /-- An instruction that is no jump. -/
  | emit (a : Assembly) (i : Instr) (plain : i.opcode.isJump = false) :
    Step a (a.added (a.buffer.emit i) (.instr i))
  /-- A jump that is to be patched later. -/
  | jump (a : Assembly) (kind : JumpKind) :
    Step a (a.added (a.buffer.jump (.jump kind)).1
      (.pending kind (a.buffer.jump (.jump kind)).2))
  /-- A jump back to an offset that the buffer has passed. -/
  | jumpTo (a : Assembly) (kind : JumpKind) (target : Nat) (passed : target ≤ a.buffer.offset) :
    Step a (a.added (a.buffer.jumpTo (.jump kind) target) (.aimed kind target))
  /-- A jump that was added earlier is pointed to where the buffer ends now. -/
  | patch (b : CodeBuffer) (front back : List Emitted) (offset : Nat) (kind : JumpKind)
    (operand : Nat) :
    Step ⟨b, front ++ ⟨offset, .pending kind operand⟩ :: back⟩
      ⟨b.patchJump operand, front ++ ⟨offset, .aimed kind b.offset⟩ :: back⟩

/-- What calls can lead to. -/
def Reachable : Assembly → Prop := ReflTransGen Step {}

/-! ## The bytes of an assembly -/

/-- The bytes are those of the instructions that were asked for, from their offsets on. -/
structure Laid (a : Assembly) : Prop where
  bytes_eq : a.buffer.bytes.toList = (a.emitted.map Emitted.instr).flatMap Instr.encode
  place_eq : place 0 (a.emitted.map Emitted.instr) = a.emitted.map Emitted.placed
  fits : ∀ e ∈ a.emitted, e.Fits a.buffer.offset

variable {a a' : Assembly}

theorem Laid.offset_eq (h : a.Laid) : a.buffer.offset = codeSize (a.emitted.map Emitted.instr) := by
  rw [CodeBuffer.offset_eq, h.bytes_eq, length_flatMap_encode]

/-- An instruction ends where the buffer ends, or before. -/
theorem Laid.next_le (h : a.Laid) {e : Emitted} (he : e ∈ a.emitted) :
    e.placed.next ≤ a.buffer.offset := by
  have hmem : e.placed ∈ place 0 (a.emitted.map Emitted.instr) :=
    h.place_eq ▸ List.mem_map_of_mem he
  have hnext := next_le_of_mem_place hmem
  rwa [Nat.zero_add, ← h.offset_eq] at hnext

/-- The position that a jump is patched at is that of its operand, which lies in the buffer. -/
theorem Laid.operand_of_pending (h : a.Laid) {offset operand : Nat} {kind : JumpKind}
    (he : ⟨offset, .pending kind operand⟩ ∈ a.emitted) :
    operand = offset + 1 ∧ operand + 4 ≤ a.buffer.offset := by
  have hoperand : operand = offset + 1 := h.fits _ he
  exact ⟨hoperand, hoperand ▸ h.next_le he⟩

theorem laid_empty : Laid {} := ⟨rfl, rfl, nofun⟩

/-- An instruction behind all others. -/
theorem Laid.added (h : a.Laid) {b : CodeBuffer} {request : Request}
    (hbytes : b.bytes.toList =
      a.buffer.bytes.toList ++ (Emitted.instr ⟨a.buffer.offset, request⟩).encode)
    (hfits : Emitted.Fits b.offset ⟨a.buffer.offset, request⟩) : (a.added b request).Laid := by
  have hgrows : a.buffer.offset ≤ b.offset := by
    rw [CodeBuffer.offset_eq, CodeBuffer.offset_eq, hbytes, List.length_append]
    exact Nat.le_add_right _ _
  refine ⟨?_, ?_, ?_⟩
  · rw [Assembly.added, hbytes, h.bytes_eq, List.map_append, List.flatMap_append, List.map_singleton,
      List.flatMap_singleton]
  · rw [Assembly.added, List.map_append, List.map_append, place_append, h.place_eq, Nat.zero_add,
      ← h.offset_eq]
    rfl
  · intro e he
    rcases List.mem_append.mp he with he | he
    · exact (h.fits e he).mono hgrows
    · exact List.mem_singleton.mp he ▸ hfits

section

variable {b : CodeBuffer} {front back : List Emitted} {e : Emitted}

/-- The offsets of a record around one instruction. -/
theorem place_append_cons_iff :
    place 0 ((front ++ e :: back).map Emitted.instr) = (front ++ e :: back).map Emitted.placed ↔
      place 0 (front.map Emitted.instr) = front.map Emitted.placed ∧
        codeSize (front.map Emitted.instr) = e.offset ∧
        place (e.offset + e.instr.size) (back.map Emitted.instr) = back.map Emitted.placed := by
  have hlength : (place 0 (front.map Emitted.instr)).length = (front.map Emitted.placed).length := by
    rw [length_place, List.length_map, List.length_map]
  rw [List.map_append, List.map_append, place_append, Nat.zero_add, List.map_cons, List.map_cons,
    place_cons]
  constructor
  · intro h
    obtain ⟨hfront, hbehind⟩ := List.append_inj h hlength
    obtain ⟨hplaced, hback⟩ := List.cons.inj hbehind
    have hoffset : codeSize (front.map Emitted.instr) = e.offset := congrArg Placed.offset hplaced
    exact ⟨hfront, hoffset, hoffset ▸ hback⟩
  · rintro ⟨hfront, hoffset, hback⟩
    rw [hfront, hoffset, hback]
    rfl

theorem bytes_append_cons (front back : List Emitted) (e : Emitted) :
    ((front ++ e :: back).map Emitted.instr).flatMap Instr.encode =
      (front.map Emitted.instr).flatMap Instr.encode ++
        (e.instr.encode ++ (back.map Emitted.instr).flatMap Instr.encode) := by
  rw [List.map_append, List.flatMap_append, List.map_cons, List.flatMap_cons]

/-- A patch changes one instruction in its place. -/
theorem Laid.patched {offset operand : Nat} {kind : JumpKind}
    (h : Laid ⟨b, front ++ ⟨offset, .pending kind operand⟩ :: back⟩) :
    Laid ⟨b.patchJump operand, front ++ ⟨offset, .aimed kind b.offset⟩ :: back⟩ := by
  obtain ⟨hoperand, hinside⟩ :=
    h.operand_of_pending (List.mem_append_right _ List.mem_cons_self)
  have hoffset : (b.patchJump operand).offset = b.offset := (CodeBuffer.patch_untouched hinside _).1
  obtain ⟨hbytes, hplace, hfits⟩ := h
  obtain ⟨hfront, hsize, hback⟩ := place_append_cons_iff.mp hplace
  -- In front of the operand stand the other instructions and the code of the jump.
  have hbytes : b.bytes.toList =
      ((front.map Emitted.instr).flatMap Instr.encode ++ [(Opcode.jump kind).byte]) ++
        (Wire.word 0 ++ (back.map Emitted.instr).flatMap Instr.encode) := by
    rw [hbytes, bytes_append_cons, List.append_assoc]
    rfl
  have hposition : ((front.map Emitted.instr).flatMap Instr.encode ++
      [(Opcode.jump kind).byte]).length = operand := by
    rw [List.length_append, length_flatMap_encode, hsize, hoperand]
    rfl
  have hpatch := CodeBuffer.toList_patch_of_append hbytes rfl
    (CodeBuffer.distance operand b.offset).toUInt32
  rw [hposition] at hpatch
  refine ⟨?_, place_append_cons_iff.mpr ⟨hfront, hsize, hback⟩, ?_⟩
  · rw [bytes_append_cons, CodeBuffer.patchJump, hpatch, List.append_assoc, hoperand]
    rfl
  · intro e he
    rw [hoffset]
    rcases List.mem_append.mp he with he | he
    · exact hfits e (List.mem_append_left _ he)
    · rcases List.mem_cons.mp he with rfl | he
      · exact Nat.le_refl _
      · exact hfits e (List.mem_append_right _ (List.mem_cons_of_mem _ he))

end

theorem Laid.step (h : a.Laid) (hstep : Step a a') : a'.Laid := by
  cases hstep with
  | emit _ i plain => exact h.added (CodeBuffer.toList_emit plain) plain
  | jump _ kind => exact h.added (CodeBuffer.toList_jump _ _) (CodeBuffer.jump_position _ _)
  | jumpTo _ kind target passed =>
    have hbytes := CodeBuffer.toList_jumpTo a.buffer kind target
    refine h.added hbytes (Nat.le_trans passed ?_)
    rw [CodeBuffer.offset_eq, CodeBuffer.offset_eq, hbytes, List.length_append]
    exact Nat.le_add_right _ _
  | patch => exact h.patched

theorem laid_of_reachable (h : a.Reachable) : a.Laid := by
  induction h with
  | refl => exact laid_empty
  | tail _ hstep ih => exact ih.step hstep

/-! ## Reading an assembly -/

/-- The verifier reads what is recorded, at the recorded offsets. -/
theorem Laid.instructions_eq (h : a.Laid) {m : CompiledMethod} (hcode : m.code = a.buffer.bytes) :
    m.instructions = .ok (a.emitted.map Emitted.placed) := by
  have hstand := Instr.standAt_iff_eq_flatMap.mpr ((congrArg Array.toList hcode).trans h.bytes_eq)
  exact CompiledMethod.instructions_eq_ok_iff.mpr ⟨_, h.place_eq.symm, hstand⟩

theorem Laid.storedAs (h : a.Laid) (hsize : a.buffer.offset < 2 ^ 31) :
    List.Forall₂ Emitted.StoredAs a.emitted (a.emitted.map Emitted.placed) := by
  rw [List.forall₂_map_right_iff, List.forall₂_same]
  intro e he
  exact Emitted.storedAs_placed (h.fits e he) (h.next_le he) hsize

end Assembly

end BuildScript
