import Mathlib.Algebra.Group.Nat.Defs
import BuildScript.Proofs.Machine.FrameStep
import BuildScript.Proofs.Machine.MethodLookup

/-!
# Runs of code without backward jumps

Code in which control only ever passes on to instructions further behind ends, however its methods
call each other: a frame comes closer to the end of its code with every step, and there are never
more than `maxCallDepth` frames.

Neither of the two decreases along a run. A call adds a frame that has all of its code before it.
What decreases is their combination, `potential`: the bytes that a frame has before it, weighed by
the power of a bound of all code sizes that belongs to the frame's depth. The step that calls takes
the caller forward, which is worth more than all the code of the frame that it adds.
-/

namespace BuildScript

open Progress

variable {c : Class} {B : Nat} {name : String} {arguments : List Value} {s : ScriptState}

/-! ## The depth of a run -/

/-- How many compiled methods are active. -/
def Progress.depth : Progress → Nat
  | .running e => e.callers.length + 1
  | .finished _ => 0

namespace Execution

variable {frames : List Frame}

theorem depth_resume_le (v : Value) : (resume frames s v).depth ≤ frames.length := by
  cases frames <;> exact Nat.le_refl _

theorem depth_call_le (hframes : frames.length ≤ maxCallDepth) :
    (call c name arguments frames s).depth ≤ maxCallDepth := by
  rw [call.eq_def]
  split
  · exact Nat.zero_le _
  · split
    · exact Nat.le_trans (depth_resume_le _) hframes
    · exact Nat.zero_le _
  · split
    · exact Nat.zero_le _
    · split
      · exact Nat.zero_le _
      · next hdepth => exact Nat.not_le.mp hdepth

theorem depth_step_le {p q : Progress} (hp : p.depth ≤ maxCallDepth) (h : Step c p q) :
    q.depth ≤ maxCallDepth := by
  obtain ⟨e⟩ := h
  rw [step]
  split
  · exact hp
  · exact depth_call_le hp
  · exact Nat.le_trans (depth_resume_le _) (Nat.le_of_succ_le hp)
  · exact Nat.zero_le _

/-- Whatever the class, no invocation ever has more than `maxCallDepth` methods active. -/
theorem depth_le_of_reaches {p : Progress}
    (h : Reaches c (call c name arguments [] s) p) : p.depth ≤ maxCallDepth := by
  induction h with
  | refl => exact depth_call_le (Nat.zero_le _)
  | tail _ hstep ih => exact depth_step_le ih hstep

end Execution

/-! ## Frames that advance -/

/-- A reading of code in which control always passes to an instruction further behind. -/
structure ForwardCode (code : Array UInt8) (placed : List Placed) : Prop where
  at?_offset : ∀ p ∈ placed, Instr.at? code p.offset = some (.ok p.instr)
  first : ∃ p ∈ placed, p.offset = 0
  leads : ∀ p ∈ placed, ∀ t, p.Leads t → p.offset < t ∧ ∃ q ∈ placed, q.offset = t

/-- All code of the class and its superclasses is forward and has less than `B` bytes. -/
def Class.Forward (c : Class) (B : Nat) : Prop :=
  ∀ entry ∈ c.chain, ∀ file, entry.body = .compiled file → ∀ m ∈ file.methods,
    m.code.size < B ∧ ∃ placed, ForwardCode m.code placed

namespace Frame

/-- The bytes of code that the frame has before it. -/
def remaining (f : Frame) : Nat := f.method.code.size - f.offset

/-- The frame stands at an instruction of forward code. -/
structure Advances (B : Nat) (f : Frame) : Prop where
  size_lt : f.method.code.size < B
  exists_placed : ∃ placed, ForwardCode f.method.code placed ∧ ∃ p ∈ placed, p.offset = f.offset

variable {f g : Frame} {className : String} {s' : ScriptState}

theorem Advances.offset_lt (h : f.Advances B) : f.offset < f.method.code.size := by
  obtain ⟨-, placed, hcode, p, hp, hoffset⟩ := h
  have hle := Instr.add_size_le_of_at? (hcode.at?_offset p hp)
  have hpos := p.instr.size_pos
  omega

theorem Advances.remaining_pos (h : f.Advances B) : 0 < f.remaining :=
  Nat.sub_pos_of_lt h.offset_lt

theorem Advances.of_leads {placed : List Placed} {p : Placed} (h : f.Advances B)
    (hcode : ForwardCode f.method.code placed) (hp : p ∈ placed) (hoffset : p.offset = f.offset)
    (hg : g.SameCode f) (hleads : p.Leads g.offset) :
    g.Advances B ∧ g.remaining < f.remaining := by
  obtain ⟨hlt, hstands⟩ := hcode.leads p hp _ hleads
  have hend := h.offset_lt
  refine ⟨⟨hg.method_eq ▸ h.size_lt, placed, hg.method_eq ▸ hcode, hstands⟩, ?_⟩
  rw [remaining, remaining, hg.method_eq]
  omega

/-- What the instruction at the frame's offset can lead to. -/
theorem Advances.exists_follows (h : f.Advances B) (className : String) (s : ScriptState) :
    ∃ placed p, ForwardCode f.method.code placed ∧ p ∈ placed ∧ p.offset = f.offset ∧
      Follows { f with offset := p.next } p.instr (f.step className s) := by
  obtain ⟨placed, hcode, p, hp, hoffset⟩ := h.exists_placed
  refine ⟨placed, p, hcode, hp, hoffset, ?_⟩
  rw [step_of_at? (hoffset ▸ hcode.at?_offset p hp), ← hoffset]
  exact execute_follows _ _ _ _

theorem Advances.of_continue (h : f.Advances B) (hstep : f.step className s = .continue g s') :
    g.Advances B ∧ g.remaining < f.remaining := by
  obtain ⟨placed, p, hcode, hp, hoffset, hfollows⟩ := h.exists_follows className s
  rw [hstep] at hfollows
  cases hfollows with
  | next _ _ hg hnext hterm =>
    exact h.of_leads hcode hp hoffset ⟨hg.1, hg.2, hg.3⟩ (.inl ⟨hterm, hnext⟩)
  | jump kind distance _ _ hjump hg htarget =>
    exact h.of_leads hcode hp hoffset ⟨hg.1, hg.2, hg.3⟩ (.inr ⟨kind, distance, hjump, htarget⟩)

theorem Advances.of_call (h : f.Advances B)
    (hstep : f.step className s = .call name arguments g s') :
    g.Advances B ∧ g.remaining < f.remaining := by
  obtain ⟨placed, p, hcode, hp, hoffset, hfollows⟩ := h.exists_follows className s
  rw [hstep] at hfollows
  cases hfollows with
  | call _ _ _ _ hg hnext hterm =>
    exact h.of_leads hcode hp hoffset ⟨hg.1, hg.2, hg.3⟩ (.inl ⟨hterm, hnext⟩)

end Frame

theorem frameInvariant_advances (hc : c.Forward B) :
    FrameInvariant c (Frame.Advances B) (Frame.Advances B) where
  enter := by
    intro name owner index method constants arguments hfound _
    obtain ⟨howner, file, hbody, -, hmethod, -⟩ := Class.findMethod?_eq_some_compiled hfound
    obtain ⟨hsize, placed, hcode⟩ :=
      hc owner howner file hbody method (List.mem_of_getElem? hmethod)
    exact ⟨hsize, placed, hcode, hcode.first⟩
  keep := fun hf hstep ↦ (hf.of_continue hstep).1
  call := fun hf hstep ↦ (hf.of_call hstep).1
  resume := fun v hg ↦ ⟨hg.size_lt, hg.exists_placed⟩

/-! ## The potential -/

/-- What the bytes before a frame weigh, by the number of its callers. -/
def weight (B n : Nat) : Nat := B ^ (maxCallDepth - 1 - n)

theorem weight_pos (hB : 0 < B) (n : Nat) : 0 < weight B n := Nat.pow_pos hB

theorem weight_eq_mul {n : Nat} (hn : n + 1 < maxCallDepth) :
    weight B n = B * weight B (n + 1) := by
  have hexp : maxCallDepth - 1 - n = maxCallDepth - 1 - (n + 1) + 1 := by omega
  rw [weight, weight, hexp, Nat.pow_succ, Nat.mul_comm]

/-- The weighed bytes before the frames, innermost first. -/
def potential (B : Nat) : List Frame → Nat
  | [] => 0
  | f :: callers => f.remaining * weight B callers.length + potential B callers

def Progress.potential (B : Nat) : Progress → Nat
  | .running e => BuildScript.potential B (e.frame :: e.callers)
  | .finished _ => 0

variable {f g : Frame} {callers : List Frame}

theorem potential_lt_of_remaining (hB : 0 < B) (h : g.remaining < f.remaining) :
    potential B (g :: callers) < potential B (f :: callers) :=
  Nat.add_lt_add_right (Nat.mul_lt_mul_of_pos_right h (weight_pos hB _)) _

theorem potential_pos (hf : f.Advances B) : 0 < potential B (f :: callers) :=
  Nat.add_pos_left (Nat.mul_pos hf.remaining_pos (weight_pos (Nat.zero_lt_of_lt hf.size_lt) _)) _

/-- One byte of the caller outweighs all the code of the method that it calls. -/
theorem potential_enter_lt {method : CompiledMethod} (constants : ConstantPool)
    (hmethod : method.code.size < B) (hdepth : callers.length + 1 < maxCallDepth)
    (h : g.remaining < f.remaining) :
    potential B (Frame.enter method constants arguments :: g :: callers) <
      potential B (f :: callers) := by
  have hpos : 0 < weight B (callers.length + 1) := weight_pos (Nat.zero_lt_of_lt hmethod) _
  simp only [potential, List.length_cons]
  rw [← Nat.add_assoc]
  refine Nat.add_lt_add_right ?_ _
  calc (Frame.enter method constants arguments).remaining * weight B (callers.length + 1) +
        g.remaining * weight B callers.length
      < B * weight B (callers.length + 1) + g.remaining * weight B callers.length :=
        Nat.add_lt_add_right (Nat.mul_lt_mul_of_pos_right hmethod hpos) _
    _ = (g.remaining + 1) * weight B callers.length := by
        rw [← weight_eq_mul hdepth, Nat.succ_mul, Nat.add_comm]
    _ ≤ f.remaining * weight B callers.length := Nat.mul_le_mul_right _ h

namespace Execution

theorem potential_resume (frames : List Frame) (v : Value) :
    (resume frames s v).potential B = BuildScript.potential B frames := by
  cases frames <;> rfl

/-- A call leads to less than what its caller had before it. -/
theorem potential_call_lt (hc : c.Forward B) (hf : f.Advances B)
    (h : g.remaining < f.remaining) :
    (call c name arguments (g :: callers) s).potential B <
      BuildScript.potential B (f :: callers) := by
  have hpos : 0 < BuildScript.potential B (f :: callers) := potential_pos hf
  rw [call.eq_def]
  split
  · exact hpos
  · split
    · rw [potential_resume]
      exact potential_lt_of_remaining (Nat.zero_lt_of_lt hf.size_lt) h
    · exact hpos
  · next method constants hfound =>
    split
    · exact hpos
    · split
      · exact hpos
      · next hshallow =>
        obtain ⟨howner, file, hbody, -, hmethod, -⟩ := Class.findMethod?_eq_some_compiled hfound
        have hsize := (hc _ howner file hbody method (List.mem_of_getElem? hmethod)).1
        exact potential_enter_lt constants hsize (Nat.not_le.mp hshallow) h

/-- Every step of a run makes the potential smaller. -/
theorem potential_step_lt (hc : c.Forward B) {e : Execution} (hframe : e.frame.Advances B) :
    (e.step c).potential B < (Progress.running e).potential B := by
  rw [step]
  split
  · next g s' hstep =>
    exact potential_lt_of_remaining (Nat.zero_lt_of_lt hframe.size_lt)
      (hframe.of_continue hstep).2
  · next hstep => exact potential_call_lt hc hframe (hframe.of_call hstep).2
  · rw [potential_resume]
    exact Nat.lt_add_of_pos_left
      (Nat.mul_pos hframe.remaining_pos (weight_pos (Nat.zero_lt_of_lt hframe.size_lt) _))
  · exact potential_pos hframe

/-- A run takes no more steps than its potential. -/
theorem exists_run_of_potential_le (hc : c.Forward B) {n : Nat} {p : Progress}
    (hframes : p.AllFrames (Frame.Advances B) (Frame.Advances B)) (h : p.potential B ≤ n) :
    ∃ o, run c n p = some o := by
  induction n generalizing p with
  | zero =>
    cases p with
    | running e => exact absurd h (Nat.not_le.mpr (potential_pos hframes.1))
    | finished o => exact ⟨o, rfl⟩
  | succ n ih =>
    cases p with
    | running e =>
      have hlt := potential_step_lt hc hframes.1
      exact ih ((frameInvariant_advances hc).allFrames_step hframes (.step e)) (by omega)
    | finished o => exact ⟨o, rfl⟩

theorem potential_call_le (hc : c.Forward B) :
    (call c name arguments [] s).potential B ≤ B ^ maxCallDepth := by
  rw [call.eq_def]
  split
  · exact Nat.zero_le _
  · split
    · exact Nat.zero_le _
    · exact Nat.zero_le _
  · next method constants hfound =>
    split
    · exact Nat.zero_le _
    · split
      · exact Nat.zero_le _
      · obtain ⟨howner, file, hbody, -, hmethod, -⟩ := Class.findMethod?_eq_some_compiled hfound
        have hsize := (hc _ howner file hbody method (List.mem_of_getElem? hmethod)).1
        calc method.code.size * B ^ (maxCallDepth - 1)
            ≤ B * B ^ (maxCallDepth - 1) := Nat.mul_le_mul_right _ (Nat.le_of_lt hsize)
          _ = B ^ maxCallDepth := (Nat.pow_succ'.symm : B * B ^ (maxCallDepth - 1) = _)

end Execution

/-- Invocations of forward code end, after at most `B ^ maxCallDepth` steps. -/
theorem Class.Forward.exists_invoke (hc : c.Forward B) (name : String) (arguments : List Value)
    (s : ScriptState) : ∃ o, c.invoke (B ^ maxCallDepth) name arguments s = some o :=
  Execution.exists_run_of_potential_le hc
    ((frameInvariant_advances hc).allFrames_call (fun _ h ↦ absurd h List.not_mem_nil) _ _)
    (Execution.potential_call_le hc)

end BuildScript
