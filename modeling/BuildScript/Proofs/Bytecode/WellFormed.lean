import BuildScript.Proofs.Bytecode.Layout

/-!
# Well-formed classes

What the verifier checks, said without the verifier. `CompiledMethod.WellFormed` lists the facts
about one method that execution relies on, `ClassFile.WellFormed` those about a class, and
`verify_eq_ok_iff` says that exactly the well-formed classes are accepted.

The checks stop at the first fault, so each of them is a guard in front of the rest; the lemmas of
the first section open such guards.
-/

namespace BuildScript

/-! ## Guards -/

section Guards

variable {ε α β : Type}

theorem bind_eq_ok {x : Except ε α} {f : α → Except ε β} {b : β} :
    (x >>= f) = .ok b ↔ ∃ a, x = .ok a ∧ f a = .ok b := by
  cases x <;> simp [bind, Except.bind]

theorem eq_ok_of_mapError {ε' : Type} {f : ε → ε'} {x : Except ε α} {a : α}
    (h : x.mapError f = .ok a) : x = .ok a := by
  cases x with
  | error e => cases h
  | ok a' =>
    cases h
    rfl

/-- A check succeeds exactly if its condition holds. -/
theorem check_eq_ok {p : Prop} [Decidable p] {e : ε} :
    (if p then Except.ok () else .error e) = .ok () ↔ p := by
  by_cases hp : p <;> simp [hp]

theorem forM_eq_ok_iff {f : α → Except ε Unit} {l : List α} :
    l.forM f = .ok () ↔ ∀ a ∈ l, f a = .ok () := by
  induction l with
  | nil => simp [List.forM_eq_forM, pure, Except.pure]
  | cons a l ih =>
    rw [List.forM_eq_forM, List.forM_cons, bind_eq_ok, ← List.forM_eq_forM, ih,
      List.forall_mem_cons]
    exact ⟨fun ⟨_, ha, hl⟩ ↦ ⟨ha, hl⟩, fun ⟨ha, hl⟩ ↦ ⟨(), ha, hl⟩⟩

/-- Checking names against those seen before finds every repetition. -/
theorem nodup_cons_and_fresh_iff {n : α} {ns seen : List α} :
    ((n :: ns).Nodup ∧ ∀ k ∈ n :: ns, k ∉ seen) ↔
      n ∉ seen ∧ ns.Nodup ∧ ∀ k ∈ ns, k ∉ n :: seen := by
  rw [List.nodup_cons, List.forall_mem_cons]
  constructor
  · rintro ⟨⟨hn, hnodup⟩, hseen, hfresh⟩
    refine ⟨hseen, hnodup, fun k hk h ↦ ?_⟩
    rcases List.mem_cons.mp h with rfl | h
    · exact hn hk
    · exact hfresh k hk h
  · rintro ⟨hseen, hnodup, hfresh⟩
    exact ⟨⟨fun h ↦ hfresh n h List.mem_cons_self, hnodup⟩, hseen,
      fun k hk h ↦ hfresh k hk (List.mem_cons_of_mem _ h)⟩

end Guards

/-! ## Operands -/

namespace Instr

/-- The pool holds the constant that the instruction names. -/
def ConstantExists (pool : ConstantPool) : Instr → Prop
  | pushInt i => i.toNat < pool.integers.size
  | pushFloat i => i.toNat < pool.floats.size
  | pushStr i | pushClass i | loadVar i | storeVar i | getProperty i
  | invokeMethod i _ | invokeVirtual i _ => i.toNat < pool.strings.size
  | _ => True

/-- The local slot that the instruction names is among the first `count`. -/
def SlotExists (count : Nat) : Instr → Prop
  | loadLocal slot | storeLocal slot => slot.toNat < count
  | _ => True

instance (pool : ConstantPool) : DecidablePred (ConstantExists pool) := fun i ↦ by
  cases i <;> first | exact instDecidableTrue | exact Nat.decLt _ _

instance (count : Nat) : DecidablePred (SlotExists count) := fun i ↦ by
  cases i <;> first | exact instDecidableTrue | exact Nat.decLt _ _

end Instr

/-- If the instruction is a jump, it leads to one of the placed instructions. -/
def Placed.Lands (p : Placed) (placed : List Placed) : Prop :=
  ∀ kind distance, p.instr = .jump kind distance →
    ∃ q ∈ placed, (q.offset : Int) = p.next + distance.toInt

/-! ## Methods -/

/-- The method's code is the given instructions, and running them can only fail for reasons that
depend on values. -/
structure CompiledMethod.WellFormed (pool : ConstantPool) (m : CompiledMethod)
    (placed : List Placed) : Prop where
  params_le_locals : m.paramCount ≤ m.localCount
  instructions_eq : m.instructions = .ok placed
  constants : ∀ p ∈ placed, p.instr.ConstantExists pool
  slots : ∀ p ∈ placed, p.instr.SlotExists m.localCount.toNat
  lands : ∀ p ∈ placed, p.Lands placed
  last : ∃ p, placed.getLast? = some p ∧ p.instr.opcode.isTerminator = true

namespace ClassFile

theorem checkConstant_eq_ok_iff {m : CompiledMethod} {p : Placed} {index : UInt32} {count : Nat} :
    checkConstant m p index count = .ok () ↔ index.toNat < count := by
  rw [checkConstant, check_eq_ok]

/-- A jump's target is looked up among the offsets, as a natural number. -/
theorem contains_offset_iff {placed : List Placed} {target : Int} :
    (0 ≤ target && (Std.HashSet.ofList (placed.map (·.offset))).contains target.toNat) = true ↔
      ∃ q ∈ placed, (q.offset : Int) = target := by
  rw [Std.HashSet.contains_ofList, Bool.and_eq_true, decide_eq_true_iff, List.contains_iff_mem,
    List.mem_map]
  constructor
  · rintro ⟨hpos, q, hq, hoffset⟩
    exact ⟨q, hq, by omega⟩
  · rintro ⟨q, hq, rfl⟩
    exact ⟨Int.natCast_nonneg _, q, hq, rfl⟩

theorem checkOperands_eq_ok_iff {pool : ConstantPool} {m : CompiledMethod} {placed : List Placed}
    {p : Placed} :
    checkOperands pool m (Std.HashSet.ofList (placed.map (·.offset))) p = .ok () ↔
      p.instr.ConstantExists pool ∧ p.instr.SlotExists m.localCount.toNat ∧ p.Lands placed := by
  obtain ⟨o, i⟩ := p
  have noJump (h : ∀ kind distance, i ≠ .jump kind distance) : Placed.Lands ⟨o, i⟩ placed :=
    fun kind distance hi ↦ absurd hi (h kind distance)
  -- Each instruction names one thing at most, so two of the three conditions hold trivially.
  cases i with
  | jump kind distance =>
    rw [checkOperands]
    dsimp only
    rw [check_eq_ok, contains_offset_iff]
    constructor
    · intro h
      refine ⟨trivial, trivial, fun kind' distance' hi ↦ ?_⟩
      cases hi
      exact h
    · rintro ⟨-, -, h⟩
      exact h kind distance rfl
  | loadLocal | storeLocal =>
    rw [checkOperands]
    dsimp only
    rw [check_eq_ok, UInt16.lt_iff_toNat_lt]
    simp [Instr.ConstantExists, Instr.SlotExists, noJump]
  | pushInt | pushFloat | pushStr | pushClass | loadVar | storeVar | getProperty | invokeMethod
  | invokeVirtual =>
    rw [checkOperands]
    dsimp only
    rw [checkConstant_eq_ok_iff]
    simp [Instr.ConstantExists, Instr.SlotExists, noJump]
  | _ => simp [checkOperands, Instr.ConstantExists, Instr.SlotExists, noJump]

theorem verifyMethod_eq_ok_iff {pool : ConstantPool} {m : CompiledMethod} :
    verifyMethod pool m = .ok () ↔ ∃ placed, m.WellFormed pool placed := by
  have opened : verifyMethod pool m = .ok () ↔ ¬m.localCount < m.paramCount ∧
      ∃ placed, m.instructions = .ok placed ∧
        placed.forM (checkOperands pool m (Std.HashSet.ofList (placed.map (·.offset)))) = .ok () ∧
        ∃ p, placed.getLast? = some p ∧ p.instr.opcode.isTerminator = true := by
    -- One case for each guard at which the checks can stop.
    rw [verifyMethod]
    simp only [bind, Except.bind, throw, throwThe, MonadExceptOf.throw, pure, Except.pure]
    by_cases hcount : m.localCount < m.paramCount
    · simp [hcount]
    · cases hread : m.instructions with
      | error e => simp [hcount]
      | ok placed =>
        cases hcheck : placed.forM
          (checkOperands pool m (Std.HashSet.ofList (placed.map (·.offset)))) with
        | error e => simp [hcount, hcheck, -List.forM_eq_forM]
        | ok u =>
          cases hlast : placed.getLast? with
          | none => simp [hcount, hcheck, hlast, -List.forM_eq_forM]
          | some p => simp [hcount, hcheck, hlast, -List.forM_eq_forM]
  rw [opened]
  simp only [forM_eq_ok_iff, checkOperands_eq_ok_iff]
  constructor
  · rintro ⟨hcount, placed, hread, hcheck, hlast⟩
    exact ⟨placed, UInt16.not_lt.mp hcount, hread, fun p hp ↦ (hcheck p hp).1,
      fun p hp ↦ (hcheck p hp).2.1, fun p hp ↦ (hcheck p hp).2.2, hlast⟩
  · rintro ⟨placed, hm⟩
    exact ⟨UInt16.not_lt.mpr hm.params_le_locals, placed, hm.instructions_eq,
      fun p hp ↦ ⟨hm.constants p hp, hm.slots p hp, hm.lands p hp⟩, hm.last⟩

/-! ## Classes -/

theorem verifyMethods_eq_ok_iff {pool : ConstantPool} {seen : List String}
    {ms : List CompiledMethod} :
    verifyMethods pool seen ms = .ok () ↔
      ((ms.map (·.name)).Nodup ∧ ∀ n ∈ ms.map (·.name), n ∉ seen) ∧
        ∀ m ∈ ms, ∃ placed, m.WellFormed pool placed := by
  induction ms generalizing seen with
  | nil => simp [verifyMethods]
  | cons m ms ih =>
    have opened : verifyMethods pool seen (m :: ms) = .ok () ↔
        m.name ∉ seen ∧ verifyMethod pool m = .ok () ∧
          verifyMethods pool (m.name :: seen) ms = .ok () := by
      rw [verifyMethods]
      simp only [bind, Except.bind, throw, throwThe, MonadExceptOf.throw]
      by_cases hseen : m.name ∈ seen
      · simp [hseen]
      · cases hm : verifyMethod pool m <;> simp [hseen]
    rw [opened, ih, verifyMethod_eq_ok_iff, List.map_cons, nodup_cons_and_fresh_iff,
      List.forall_mem_cons]
    constructor
    · rintro ⟨hseen, hm, hnames, hms⟩
      exact ⟨⟨hseen, hnames⟩, hm, hms⟩
    · rintro ⟨⟨hseen, hnames⟩, hm, hms⟩
      exact ⟨hseen, hm, hnames, hms⟩

/-- A class with the current header, distinct method names and well-formed methods. -/
structure WellFormed (c : ClassFile) : Prop where
  magic_eq : c.magic = standardMagic
  version_eq : c.version = currentVersion
  name_ne_empty : c.name ≠ ""
  nodup_names : (c.methods.map (·.name)).Nodup
  methods : ∀ m ∈ c.methods, ∃ placed, m.WellFormed c.constants placed

/-- The verifier accepts exactly the well-formed classes. -/
theorem verify_eq_ok_iff {c : ClassFile} : c.verify = .ok () ↔ c.WellFormed := by
  have opened : c.verify = .ok () ↔ c.magic = standardMagic ∧ c.version = currentVersion ∧
      c.name ≠ "" ∧ verifyMethods c.constants [] c.methods = .ok () := by
    rw [verify]
    simp only [bind, Except.bind, throw, throwThe, MonadExceptOf.throw]
    by_cases hmagic : c.magic = standardMagic
    · by_cases hversion : c.version = currentVersion
      · by_cases hname : c.name = "" <;> simp [hmagic, hversion, hname]
      · simp [hmagic, hversion]
    · simp [hmagic]
  rw [opened, verifyMethods_eq_ok_iff]
  constructor
  · rintro ⟨hmagic, hversion, hname, ⟨hnodup, -⟩, hms⟩
    exact ⟨hmagic, hversion, hname, hnodup, hms⟩
  · rintro ⟨hmagic, hversion, hname, hnodup, hms⟩
    exact ⟨hmagic, hversion, hname, ⟨hnodup, fun _ _ ↦ List.not_mem_nil⟩, hms⟩

end ClassFile

end BuildScript
