import BuildScript.Proofs.Machine.FrameStep
import BuildScript.Proofs.Machine.MethodLookup

/-!
# Runs of verified code

Verified code never goes wrong for structural reasons. `Frame.Fetches` is the invariant: the method
of a frame is well formed, the frame has the locals that the method declares, and its offset is that
of one of the method's instructions. A frame is entered at the first instruction; from there a jump
leads to an instruction because the verifier has checked its target, and control falls through to
an instruction because the last one is a terminator.

A frame that waits for a result satisfies the same invariant: its offset is that of the instruction
behind the call, and the result only changes its stack.

What verification does not rule out is an instruction that finds too few operands on the stack.
-/

namespace BuildScript

/-! ## Well-formed methods -/

namespace CompiledMethod.WellFormed

variable {pool : ConstantPool} {m : CompiledMethod} {placed : List Placed} {p : Placed}

theorem at?_offset (hm : m.WellFormed pool placed) (hp : p ∈ placed) :
    Instr.at? m.code p.offset = some (.ok p.instr) := by
  obtain ⟨is, rfl, hs, -⟩ := instructions_eq_ok_iff.mp hm.instructions_eq
  exact at?_of_mem_place hs hp

/-- The first instruction stands at offset zero. -/
theorem exists_first (hm : m.WellFormed pool placed) : ∃ p ∈ placed, p.offset = 0 := by
  obtain ⟨is, rfl, -, -⟩ := instructions_eq_ok_iff.mp hm.instructions_eq
  obtain ⟨last, hlast, -⟩ := hm.last
  cases is with
  | nil => cases hlast
  | cons i is => exact ⟨⟨0, i⟩, List.mem_cons_self, rfl⟩

/-- An instruction that is no terminator is not the last one. -/
theorem exists_next (hm : m.WellFormed pool placed) (hp : p ∈ placed)
    (hterm : p.instr.opcode.isTerminator = false) : ∃ q ∈ placed, q.offset = p.next := by
  obtain ⟨is, rfl, -, -⟩ := instructions_eq_ok_iff.mp hm.instructions_eq
  rcases exists_next_of_mem_place hp with hnext | ⟨-, hlast⟩
  · exact hnext
  · obtain ⟨last, hlast', hlastterm⟩ := hm.last
    -- Otherwise it is the last one, and that is a terminator.
    have hinstr : is.getLast? = some last.instr := by
      rw [← map_instr_place 0 is, List.getLast?_map, hlast', Option.map_some]
    rw [hlast, Option.some.injEq] at hinstr
    rw [hinstr, hlastterm] at hterm
    cases hterm

end CompiledMethod.WellFormed

/-! ## The invariant of a frame -/

/-- The frame runs a well-formed method and is about to fetch the instruction `p` of it. -/
structure Frame.Fetches (f : Frame) (placed : List Placed) (p : Placed) : Prop where
  wellFormed : f.method.WellFormed f.constants placed
  size_locals : f.locals.size = f.method.localCount.toNat
  mem : p ∈ placed
  offset_eq : p.offset = f.offset

namespace Frame.Fetches

variable {f g : Frame} {placed : List Placed} {p q : Placed} {className : String}
  {s s' : ScriptState}

theorem at?_offset (h : f.Fetches placed p) :
    Instr.at? f.method.code f.offset = some (.ok p.instr) := by
  rw [← h.offset_eq]
  exact h.wellFormed.at?_offset h.mem

theorem slotExists (h : f.Fetches placed p) : p.instr.SlotExists f.locals.size := by
  rw [h.size_locals]
  exact h.wellFormed.slots p h.mem

/-- The invariant only speaks of the code, the number of locals and the offset. -/
theorem of_sameCode (h : f.Fetches placed p) (hg : g.SameCode f) (hq : q ∈ placed)
    (hoffset : q.offset = g.offset) : g.Fetches placed q where
  wellFormed := by
    rw [hg.method_eq, hg.constants_eq]
    exact h.wellFormed
  size_locals := by rw [hg.size_locals, hg.method_eq, h.size_locals]
  mem := hq
  offset_eq := hoffset

/-- What the instruction that is fetched can lead to. -/
theorem step_follows (h : f.Fetches placed p) (className : String) (s : ScriptState) :
    Frame.Follows { f with offset := p.next } p.instr (f.step className s) := by
  have hnext : f.offset + p.instr.size = p.next := by rw [Placed.next, h.offset_eq]
  rw [step_of_at? h.at?_offset, hnext]
  exact execute_follows _ _ _ _

theorem exists_of_continue (h : f.Fetches placed p) (hstep : f.step className s = .continue g s') :
    ∃ q, g.Fetches placed q := by
  have hfollows := h.step_follows className s
  rw [hstep] at hfollows
  cases hfollows with
  | next _ _ hg hoffset hterm _ =>
    obtain ⟨q, hq, hnext⟩ := h.wellFormed.exists_next h.mem hterm
    exact ⟨q, h.of_sameCode ⟨hg.1, hg.2, hg.3⟩ hq (hnext.trans hoffset.symm)⟩
  | jump kind distance _ _ hjump hg hoffset _ =>
    obtain ⟨q, hq, htarget⟩ := h.wellFormed.lands p h.mem kind distance hjump
    refine ⟨q, h.of_sameCode ⟨hg.1, hg.2, hg.3⟩ hq ?_⟩
    exact Int.ofNat_inj.mp (htarget.trans hoffset.symm)

theorem exists_of_call {name : String} {arguments : List Value} (h : f.Fetches placed p)
    (hstep : f.step className s = .call name arguments g s') : ∃ q, g.Fetches placed q := by
  have hfollows := h.step_follows className s
  rw [hstep] at hfollows
  cases hfollows with
  | call _ _ _ _ hg hoffset hterm _ _ =>
    obtain ⟨q, hq, hnext⟩ := h.wellFormed.exists_next h.mem hterm
    exact ⟨q, h.of_sameCode ⟨hg.1, hg.2, hg.3⟩ hq (hnext.trans hoffset.symm)⟩

/-- The only failure that blames the code is an operand missing on the stack. -/
theorem eq_stackUnderflow_of_fail (h : f.Fetches placed p) {e : RunError}
    (hstep : f.step className s = .fail (.error e) s') (he : e.BlamesCode) :
    e = .stackUnderflow ∧ f.stack.length < p.instr.pops := by
  have hfollows := h.step_follows className s
  rw [hstep] at hfollows
  cases hfollows with
  | fail _ _ hdefect =>
    cases hdefect e rfl he with
    | operands hlt => exact ⟨rfl, hlt⟩
    | slot hslot => exact absurd h.slotExists hslot
    | constant index hconstant => exact absurd (h.wellFormed.constants p h.mem) hconstant
    | target kind distance name hjump houtside =>
      -- The target is an instruction, and that ends inside the code.
      obtain ⟨q, hq, htarget⟩ := h.wellFormed.lands p h.mem kind distance hjump
      have hlt := Instr.add_size_le_of_at? (h.wellFormed.at?_offset hq)
      dsimp only at houtside
      omega

/-- A method is only left by a return instruction, never by running past its end. -/
theorem isReturn_of_return (h : f.Fetches placed p) {v : Value}
    (hstep : f.step className s = .return v s') : p.instr.opcode.isReturn = true := by
  have hfollows := h.step_follows className s
  rw [hstep] at hfollows
  cases hfollows with
  | «return» _ _ hreturn => exact hreturn

end Frame.Fetches

/-! ## Runs -/

/-- The verifier accepts the class files of the class and of all its superclasses. -/
def Class.Verified (c : Class) : Prop :=
  ∀ entry ∈ c.chain, ∀ file, entry.body = .compiled file → file.verify = .ok ()

theorem fetches_enter {m : CompiledMethod} {pool : ConstantPool} {placed : List Placed}
    {arguments : List Value} (hm : m.WellFormed pool placed) :
    ∃ p, (Frame.enter m pool arguments).Fetches placed p := by
  obtain ⟨p, hp, hoffset⟩ := hm.exists_first
  exact ⟨p, hm, Frame.size_locals_enter m pool arguments, hp, hoffset⟩

theorem frameInvariant_fetches {c : Class} (hc : c.Verified) :
    FrameInvariant c (fun f ↦ ∃ placed p, f.Fetches placed p)
      (fun f ↦ ∃ placed p, f.Fetches placed p) where
  enter := by
    intro name owner index method constants arguments hfound _
    obtain ⟨howner, file, hbody, rfl, hmethod, -⟩ := Class.findMethod?_eq_some_compiled hfound
    have hfile := ClassFile.verify_eq_ok_iff.mp (hc owner howner file hbody)
    obtain ⟨placed, hm⟩ := hfile.methods method (List.mem_of_getElem? hmethod)
    exact ⟨placed, fetches_enter hm⟩
  keep := by
    rintro f g s s' ⟨placed, p, h⟩ hstep
    exact ⟨placed, h.exists_of_continue hstep⟩
  call := by
    rintro f g s s' name arguments ⟨placed, p, h⟩ hstep
    exact ⟨placed, h.exists_of_call hstep⟩
  resume := by
    rintro g v ⟨placed, p, h⟩
    exact ⟨placed, p, h.of_sameCode ⟨rfl, rfl, rfl⟩ h.mem h.offset_eq⟩

/-- Whenever a run of a verified class is about to fetch, it stands at an instruction that the
verifier has read; the constant, the local and the jump target which the instruction names exist. If
the method is left, then by a return instruction, and if the machine blames the code, then only for
an operand missing on the stack. -/
theorem fetches_instruction_of_verified {c : Class} (hc : c.Verified) {name : String}
    {arguments : List Value} {s : ScriptState} {e : Execution}
    (h : Progress.Reaches c (Execution.call c name arguments [] s) (.running e)) :
    ∃ placed, e.frame.method.instructions = .ok placed ∧
      ∃ p ∈ placed, p.offset = e.frame.offset ∧
        Instr.at? e.frame.method.code e.frame.offset = some (.ok p.instr) ∧
        p.instr.ConstantExists e.frame.constants ∧
        p.instr.SlotExists e.frame.locals.size ∧
        p.Lands placed ∧
        (∀ v s', e.frame.step c.name e.state = .return v s' → p.instr.opcode.isReturn = true) ∧
        ∀ err s', e.frame.step c.name e.state = .fail (.error err) s' → err.BlamesCode →
          err = .stackUnderflow ∧ e.frame.stack.length < p.instr.pops := by
  obtain ⟨⟨placed, p, hfetches⟩, -⟩ := (frameInvariant_fetches hc).frames_of_reaches h
  refine ⟨placed, hfetches.wellFormed.instructions_eq, p, hfetches.mem, hfetches.offset_eq,
    hfetches.at?_offset, hfetches.wellFormed.constants p hfetches.mem, hfetches.slotExists,
    hfetches.wellFormed.lands p hfetches.mem, fun v s' hstep ↦ ?_, fun err s' hstep herr ↦ ?_⟩
  · exact hfetches.isReturn_of_return hstep
  · exact hfetches.eq_stackUnderflow_of_fail hstep herr

/-! A class whose only method stores its constant in a local for ever. -/

def spinCode : List Instr := [.pushInt 0, .storeLocal 0, .jump .always (-13)]

def spinMethod : CompiledMethod := ⟨"spin", 0, 1, 0, (spinCode.flatMap Instr.encode).toArray⟩

def spinFile : ClassFile :=
  { ClassFile.empty "Spin" none with constants := { integers := #[7] }, methods := [spinMethod] }

theorem wellFormed_spinMethod : spinMethod.WellFormed spinFile.constants (place 0 spinCode) where
  params_le_locals := by decide
  instructions_eq := by
    refine CompiledMethod.instructions_eq_ok_iff.mpr ⟨spinCode, rfl, ?_, by decide⟩
    have h := Instr.standAt_flatMap_encode spinCode [] []
    rwa [List.nil_append, List.append_nil] at h
  constants := by decide
  slots := by decide
  lands := by
    intro p hp kind distance hi
    simp only [spinCode, place_cons, place_nil, List.mem_cons, List.not_mem_nil, or_false] at hp
    rcases hp with rfl | rfl | rfl
    · cases hi
    · cases hi
    · cases hi
      exact ⟨⟨0, .pushInt 0⟩, List.mem_cons_self, rfl⟩
  last := ⟨⟨8, .jump .always (-13)⟩, rfl, rfl⟩

theorem verified_spin : (Class.compiled 0 spinFile none).Verified := by
  intro entry hentry file hbody
  obtain rfl := List.mem_singleton.mp hentry
  cases hbody
  exact ClassFile.verify_eq_ok_iff.mpr ⟨rfl, rfl, by decide, by decide, by
    simpa [spinFile] using ⟨_, wellFormed_spinMethod⟩⟩

/-- The state in which the class spins: about to jump back, with the constant in its local. -/
def spinning : Execution := ⟨⟨spinMethod, spinFile.constants, 8, #[.int 7], []⟩, [], {}⟩

theorem reaches_spinning :
    Progress.Reaches (Class.compiled 0 spinFile none)
      (Execution.call (Class.compiled 0 spinFile none) "spin" [] [] {}) (.running spinning) :=
  Progress.Reaches.head (Progress.Reaches.head .refl)

theorem spinning_fetches :
    ∃ placed, spinMethod.instructions = .ok placed ∧ ∃ p ∈ placed, p.offset = 8 ∧
      Instr.at? spinMethod.code 8 = some (.ok p.instr) := by
  obtain ⟨placed, hread, p, hp, hoffset, hat, -⟩ :=
    fetches_instruction_of_verified verified_spin reaches_spinning
  exact ⟨placed, hread, p, hp, hoffset, hat⟩

end BuildScript
