import BuildScript.Bytecode.Verification
import BuildScript.Compile.CodeGeneration

/-!
# The layout of code

Code as a list of instructions and code as bytes. `place` gives each instruction of a list its
offset; `Instr.StandAt` says that a list of instructions stands in a byte array, one behind the
other. The two meet in `instructions_eq_ok_iff`: reading a method succeeds exactly if its bytes are
such a list from beginning to end, and then it returns the list with its offsets.

Everything about generated code is stated on lists and goes down to bytes by
`standAt_flatMap_encode`; everything about given bytes comes up from them by
`instructions_eq_ok_iff`.
-/

namespace BuildScript

/-! ## Sizes -/

theorem foldl_add_size (code : List Instr) :
    ∀ n, code.foldl (fun n i ↦ n + i.size) n = n + codeSize code := by
  induction code with
  | nil => intro n; rfl
  | cons i code ih =>
    intro n
    rw [codeSize, List.foldl_cons, List.foldl_cons, ih, ih, Nat.zero_add, Nat.add_assoc]

@[simp] theorem codeSize_nil : codeSize [] = 0 := rfl

@[simp] theorem codeSize_cons (i : Instr) (code : List Instr) :
    codeSize (i :: code) = i.size + codeSize code := by
  rw [codeSize, List.foldl_cons, foldl_add_size, Nat.zero_add]

@[simp] theorem codeSize_append (a b : List Instr) :
    codeSize (a ++ b) = codeSize a + codeSize b := by
  rw [codeSize, List.foldl_append, foldl_add_size, foldl_add_size, Nat.zero_add]

@[simp] theorem size_jumpOver (kind : JumpKind) (n : Nat) : (jumpOver kind n).size = 5 := rfl

theorem codeSize_singleton (i : Instr) : codeSize [i] = i.size := by
  rw [codeSize_cons, codeSize_nil, Nat.add_zero]

theorem length_flatMap_encode (code : List Instr) :
    (code.flatMap Instr.encode).length = codeSize code := by
  induction code with
  | nil => rfl
  | cons i code ih =>
    rw [List.flatMap_cons, List.length_append, Instr.length_encode, ih, codeSize_cons]

/-- A place behind code with one more instruction. -/
theorem add_codeSize_concat (o : Nat) (code : List Instr) (i : Instr) :
    o + codeSize (code ++ [i]) = o + codeSize code + i.size := by
  rw [codeSize_append, codeSize_singleton, Nat.add_assoc]

/-! ## Short-circuit operators -/

/-- The instruction that pushes a truth value. -/
def pushTruth (b : Bool) : Instr := if b then .pushTrue else .pushFalse

/-- The jump of a test; it is taken if the value's truth is `decided`. -/
def testFor (decided : Bool) (n : Nat) : Instr := jumpOver (if decided then .ifTrue else .ifFalse) n

@[simp] theorem size_pushTruth (b : Bool) : (pushTruth b).size = 1 := by
  cases b <;> rfl

@[simp] theorem size_testFor (decided : Bool) (n : Nat) : (testFor decided n).size = 5 := rfl

theorem shortCircuit_eq (decided : Bool) (a b : List Instr) :
    shortCircuit decided a b = a ++ testFor decided (codeSize b + jumpSize + 1 + jumpSize) ::
      (b ++ [testFor decided (1 + jumpSize), pushTruth !decided, jumpOver .always 1,
        pushTruth decided]) := rfl

theorem codeSize_shortCircuit (decided : Bool) (a b : List Instr) :
    codeSize (shortCircuit decided a b) = codeSize a + 5 + codeSize b + 12 := by
  rw [shortCircuit_eq]
  simp only [codeSize_append, codeSize_cons, codeSize_nil, size_testFor, size_pushTruth,
    size_jumpOver]
  omega

namespace Instr

theorem size_pos (i : Instr) : 0 < i.size := by
  rw [size]; omega

theorem length_operands_le (i : Instr) : i.operands.length ≤ 6 := by
  rw [length_operands]
  cases i <;> simp [opcode, Opcode.operandSize]

theorem opcode_ofOperands (op : Opcode) (bytes : List UInt8) :
    (ofOperands op bytes).opcode = op := by
  cases op <;> rfl

/-! ## Reading one instruction -/

theorem at?_eq_none_iff {code : Array UInt8} {o : Nat} : at? code o = none ↔ code.size ≤ o := by
  rw [at?, Option.map_eq_none_iff, Array.getElem?_eq_none_iff]

theorem at?_encode (front back : List UInt8) (i : Instr) :
    at? (front ++ (i.encode ++ back)).toArray front.length = some (.ok i) := by
  have hbyte : (front ++ (i.encode ++ back)).toArray[front.length]? = some i.opcode.byte := by
    simp [encode]
  have hrest : ((front ++ (i.encode ++ back)).toArray.extract
      (front.length + 1) (front.length + 7)).toList
        = i.operands ++ back.take (6 - i.operands.length) := by
    have hlen := length_operands_le i
    have hdrop : (front ++ (i.encode ++ back)).drop (front.length + 1) = i.operands ++ back := by
      rw [List.drop_append, List.drop_eq_nil_of_le (by omega), Nat.add_sub_cancel_left,
        List.nil_append, encode, List.cons_append, List.drop_succ_cons, List.drop_zero]
    rw [List.extract_toArray, List.extract_eq_take_drop, hdrop, List.take_append,
      Nat.add_sub_add_left, List.take_of_length_le hlen]
  rw [at?, hbyte, Option.map_some, hrest, decode_encode]

/-- A complete instruction ends inside the code. -/
theorem add_size_le_of_at? {code : Array UInt8} {o : Nat} {i : Instr}
    (h : at? code o = some (.ok i)) : o + i.size ≤ code.size := by
  rw [at?, Option.map_eq_some_iff] at h
  obtain ⟨byte, hbyte, hdecode⟩ := h
  -- Decoding succeeds only if none of the operands is cut off, so all bytes are there.
  have ho : o < code.size := (Array.getElem?_eq_some_iff.mp hbyte).1
  rw [decode] at hdecode
  split at hdecode
  · cases hdecode
  · next op _ =>
    dsimp only at hdecode
    split at hdecode
    · cases hdecode
    · next hlen =>
      injection hdecode with hi
      rw [← hi, size, opcode_ofOperands]
      simp only [List.length_take, Array.length_toList, Array.size_extract] at hlen
      omega

/-! ## Lists of instructions in bytes -/

/-- The instructions stand in the code one behind the other, the first at offset `o`. -/
def StandAt (code : Array UInt8) : Nat → List Instr → Prop
  | _, [] => True
  | o, i :: is => at? code o = some (.ok i) ∧ StandAt code (o + i.size) is

@[simp] theorem standAt_nil {code : Array UInt8} {o : Nat} : StandAt code o [] := trivial

@[simp] theorem standAt_cons {code : Array UInt8} {o : Nat} {i : Instr} {is : List Instr} :
    StandAt code o (i :: is) ↔ at? code o = some (.ok i) ∧ StandAt code (o + i.size) is :=
  Iff.rfl

@[simp] theorem standAt_append {code : Array UInt8} {o : Nat} {a b : List Instr} :
    StandAt code o (a ++ b) ↔ StandAt code o a ∧ StandAt code (o + codeSize a) b := by
  induction a generalizing o with
  | nil => simp
  | cons i a ih =>
    rw [List.cons_append, standAt_cons, standAt_cons, ih, codeSize_cons, Nat.add_assoc, and_assoc]

/-- Encoded instructions stand where they were written, whatever stands around them. -/
theorem standAt_flatMap_encode (is : List Instr) (front back : List UInt8) :
    StandAt (front ++ (is.flatMap encode ++ back)).toArray front.length is := by
  induction is generalizing front with
  | nil => exact standAt_nil
  | cons i is ih =>
    rw [List.flatMap_cons, List.append_assoc]
    refine ⟨at?_encode front _ i, ?_⟩
    have h := ih (front ++ i.encode)
    rwa [List.append_assoc, List.length_append, length_encode] at h

end Instr

/-! ## Offsets -/

/-- The instructions with their offsets, if the first one stands at `o`. -/
def place : Nat → List Instr → List Placed
  | _, [] => []
  | o, i :: is => ⟨o, i⟩ :: place (o + i.size) is

@[simp] theorem place_nil (o : Nat) : place o [] = [] := rfl

@[simp] theorem place_cons (o : Nat) (i : Instr) (is : List Instr) :
    place o (i :: is) = ⟨o, i⟩ :: place (o + i.size) is := rfl

@[simp] theorem place_append (o : Nat) (a b : List Instr) :
    place o (a ++ b) = place o a ++ place (o + codeSize a) b := by
  induction a generalizing o with
  | nil => simp
  | cons i a ih => rw [List.cons_append, place_cons, ih, place_cons, codeSize_cons, Nat.add_assoc,
      List.cons_append]

theorem map_instr_place (o : Nat) (is : List Instr) : (place o is).map Placed.instr = is := by
  induction is generalizing o with
  | nil => rfl
  | cons i is ih => rw [place_cons, List.map_cons, ih]

theorem length_place (o : Nat) (is : List Instr) : (place o is).length = is.length := by
  rw [← List.length_map, map_instr_place]

/-- The instructions of a list stand at the sizes of those in front of them. -/
theorem mem_place_iff {o : Nat} {is : List Instr} {p : Placed} :
    p ∈ place o is ↔ ∃ k, is[k]? = some p.instr ∧ p.offset = o + codeSize (is.take k) := by
  induction is generalizing o with
  | nil => simp
  | cons i is ih =>
    rw [place_cons, List.mem_cons, ih]
    constructor
    · rintro (rfl | ⟨k, hk, hoffset⟩)
      · exact ⟨0, rfl, rfl⟩
      · exact ⟨k + 1, hk, by rw [hoffset, List.take_succ_cons, codeSize_cons, Nat.add_assoc]⟩
    · rintro ⟨k, hk, hoffset⟩
      cases k with
      | zero =>
        obtain ⟨o', i'⟩ := p
        cases hk
        cases hoffset
        exact .inl rfl
      | succ k =>
        exact .inr ⟨k, hk, by rw [hoffset, List.take_succ_cons, codeSize_cons, Nat.add_assoc]⟩

theorem le_offset_of_mem_place {o : Nat} {is : List Instr} {p : Placed} (h : p ∈ place o is) :
    o ≤ p.offset := by
  induction is generalizing o with
  | nil => cases h
  | cons i is ih =>
    rcases List.mem_cons.mp h with rfl | h
    · exact Nat.le_refl _
    · exact Nat.le_trans (Nat.le_add_right _ _) (ih h)

theorem next_le_of_mem_place {o : Nat} {is : List Instr} {p : Placed} (h : p ∈ place o is) :
    p.next ≤ o + codeSize is := by
  induction is generalizing o with
  | nil => cases h
  | cons i is ih =>
    rw [codeSize_cons]
    rcases List.mem_cons.mp h with rfl | h
    · simp only [Placed.next]
      omega
    · have := ih h
      omega

/-- Behind each instruction stands the next one, or the code ends. -/
theorem exists_next_of_mem_place {o : Nat} {is : List Instr} {p : Placed} (h : p ∈ place o is) :
    (∃ q ∈ place o is, q.offset = p.next) ∨
      p.next = o + codeSize is ∧ is.getLast? = some p.instr := by
  induction is generalizing o with
  | nil => cases h
  | cons i is ih =>
    -- The instruction behind the first one of a piece is the first of the rest, if there is a rest.
    rcases List.mem_cons.mp h with rfl | h
    · cases is with
      | nil => exact .inr ⟨by simp [Placed.next], rfl⟩
      | cons j is => exact .inl ⟨⟨o + i.size, j⟩, by simp, rfl⟩
    · rcases ih h with ⟨q, hq, hnext⟩ | ⟨hnext, hlast⟩
      · exact .inl ⟨q, List.mem_cons_of_mem _ hq, hnext⟩
      · refine .inr ⟨by rw [hnext, codeSize_cons, Nat.add_assoc], ?_⟩
        rw [List.getLast?_cons, hlast, Option.getD_some]

theorem at?_of_mem_place {code : Array UInt8} {o : Nat} {is : List Instr} {p : Placed}
    (hs : Instr.StandAt code o is) (h : p ∈ place o is) :
    Instr.at? code p.offset = some (.ok p.instr) := by
  induction is generalizing o with
  | nil => cases h
  | cons i is ih =>
    rcases List.mem_cons.mp h with rfl | h
    · exact hs.1
    · exact ih hs.2 h

/-! ## Reading a method -/

namespace CompiledMethod

theorem instructionsFrom_of_standAt (m : CompiledMethod) (is : List Instr) :
    ∀ (o : Nat) (done : List Placed), Instr.StandAt m.code o is → o + codeSize is = m.code.size →
      m.instructionsFrom o done = .ok (done.reverse ++ place o is) := by
  induction is with
  | nil =>
    intro o done _ hend
    have hnone : Instr.at? m.code o = none := Instr.at?_eq_none_iff.mpr (by simp at hend; omega)
    rw [instructionsFrom, hnone]
    simp
  | cons i is ih =>
    intro o done hs hend
    rw [codeSize_cons] at hend
    have ho : o < m.code.size := by have := i.size_pos; omega
    rw [instructionsFrom, hs.1]
    simp only [ho, if_true]
    rw [ih _ _ hs.2 (by omega), List.reverse_cons, List.append_assoc, place_cons,
      List.singleton_append]

theorem standAt_of_instructionsFrom (m : CompiledMethod) (o : Nat) (done placed : List Placed)
    (ho : o ≤ m.code.size) (h : m.instructionsFrom o done = .ok placed) :
    ∃ is, placed = done.reverse ++ place o is ∧ Instr.StandAt m.code o is ∧
      o + codeSize is = m.code.size := by
  fun_induction instructionsFrom m o done with
  | case1 o done hnone =>
    have hend := Instr.at?_eq_none_iff.mp hnone
    injection h with h
    exact ⟨[], by simp [h], Instr.standAt_nil, by simp; omega⟩
  | case2 | case3 => cases h
  | case4 o done i hat hlt ih =>
    obtain ⟨is, hplaced, hs, hend⟩ := ih (Instr.add_size_le_of_at? hat) h
    refine ⟨i :: is, ?_, ⟨hat, hs⟩, by rw [codeSize_cons]; omega⟩
    rw [hplaced, List.reverse_cons, List.append_assoc, place_cons, List.singleton_append]
  | case5 o done i hat hlt =>
    -- An instruction that has been read lies inside the code, so this case is empty.
    have := Instr.add_size_le_of_at? hat
    have := i.size_pos
    omega

/-- Reading a method succeeds exactly if its bytes are instructions from beginning to end. -/
theorem instructions_eq_ok_iff {m : CompiledMethod} {placed : List Placed} :
    m.instructions = .ok placed ↔
      ∃ is, placed = place 0 is ∧ Instr.StandAt m.code 0 is ∧ codeSize is = m.code.size := by
  constructor
  · intro h
    obtain ⟨is, hplaced, hs, hend⟩ := standAt_of_instructionsFrom m 0 [] placed (Nat.zero_le _) h
    exact ⟨is, by simpa using hplaced, hs, by simpa using hend⟩
  · rintro ⟨is, rfl, hs, hend⟩
    exact instructionsFrom_of_standAt m is 0 [] hs (by rw [Nat.zero_add, hend])

end CompiledMethod

end BuildScript
