import BuildScript.Proofs.Compile.StackHeights
import BuildScript.Proofs.Machine.FrameStep

/-!
# Runs of generated code at their heights

The stack map of a generated method describes every run of it: whenever a frame of the method stands
at an offset, its stack has the height of that offset. So no instruction of it ever finds too few
operands.

The class that runs may be any class with the method somewhere in it, verified or not, and the other
methods may be anything. A frame that waits for the result of a call is one operand below the height
of its offset, which is that of the instruction behind the call.
-/

namespace BuildScript

/-- The frame stands at an instruction, and its stack is `missing` operands below the height there.
-/
structure Frame.AtHeight (f : Frame) (placed : List Placed) (height : Nat → Nat) (missing : Nat) :
    Prop where
  exists_placed : ∃ p ∈ placed, p.offset = f.offset
  length_stack : f.stack.length + missing = height f.offset
  size_locals : f.locals.size = f.method.localCount.toNat

variable {K : ConstantPool} {m : Method} {compiled : CompiledMethod} {placed : List Placed}
  {height : Nat → Nat}

namespace Method.HasHeights

variable {f g : Frame} {p : Placed} {className : String} {s s' : ScriptState}

theorem at?_offset (h : HasHeights K m compiled placed height) (hp : p ∈ placed) :
    Instr.at? compiled.code p.offset = some (.ok p.instr) := by
  obtain ⟨is, rfl, hs, -⟩ := CompiledMethod.instructions_eq_ok_iff.mp h.instructions_eq
  exact at?_of_mem_place hs hp

theorem atHeight_enter (h : HasHeights K m compiled placed height) (pool : ConstantPool)
    (arguments : List Value) : (Frame.enter compiled pool arguments).AtHeight placed height 0 where
  exists_placed := h.first
  length_stack := h.stackMap.start.symm
  size_locals := Frame.size_locals_enter compiled pool arguments

/-- Where an instruction leads, the stack has the height that the map gives to the place. -/
theorem atHeight_of_leads (h : HasHeights K m compiled placed height)
    (hf : f.AtHeight placed height 0) (hg : g.SameCode f) (hp : p ∈ placed)
    (hoffset : p.offset = f.offset) (hleads : p.Leads g.offset) {missing : Nat}
    (hstack : g.stack.length + missing + p.instr.pops = f.stack.length + p.instr.pushes) :
    g.AtHeight placed height missing where
  exists_placed := h.closed p hp _ hleads
  length_stack := by
    have hpops := h.stackMap.pops_le p hp
    have hlength := hf.length_stack
    rw [h.stackMap.flow p hp _ hleads, Instr.heightAfter]
    rw [← hoffset] at hlength
    omega
  size_locals := by rw [hg.size_locals, hg.method_eq, hf.size_locals]

/-- What the instruction at the frame's offset can lead to. -/
theorem exists_follows (h : HasHeights K m compiled placed height) (hm : f.method = compiled)
    (hf : f.AtHeight placed height 0) (className : String) (s : ScriptState) :
    ∃ p ∈ placed, p.offset = f.offset ∧
      Frame.Follows { f with offset := p.next } p.instr (f.step className s) := by
  obtain ⟨p, hp, hoffset⟩ := hf.exists_placed
  have hat : Instr.at? f.method.code f.offset = some (.ok p.instr) := by
    rw [hm, ← hoffset]
    exact h.at?_offset hp
  refine ⟨p, hp, hoffset, ?_⟩
  rw [Frame.step_of_at? hat, ← hoffset]
  exact Frame.execute_follows _ _ _ _

theorem atHeight_of_continue (h : HasHeights K m compiled placed height) (hm : f.method = compiled)
    (hf : f.AtHeight placed height 0) (hstep : f.step className s = .continue g s') :
    g.AtHeight placed height 0 := by
  obtain ⟨p, hp, hoffset, hfollows⟩ := h.exists_follows hm hf className s
  rw [hstep] at hfollows
  cases hfollows with
  | next _ _ hg hnext hterm hstack =>
    exact h.atHeight_of_leads hf ⟨hg.1, hg.2, hg.3⟩ hp hoffset (.inl ⟨hterm, hnext⟩) hstack
  | jump kind distance _ _ hjump hg htarget hstack =>
    exact h.atHeight_of_leads hf ⟨hg.1, hg.2, hg.3⟩ hp hoffset
      (.inr ⟨kind, distance, hjump, htarget⟩) hstack

theorem atHeight_of_call (h : HasHeights K m compiled placed height) (hm : f.method = compiled)
    (hf : f.AtHeight placed height 0) {name : String} {arguments : List Value}
    (hstep : f.step className s = .call name arguments g s') : g.AtHeight placed height 1 := by
  obtain ⟨p, hp, hoffset, hfollows⟩ := h.exists_follows hm hf className s
  rw [hstep] at hfollows
  cases hfollows with
  | call _ _ _ _ hg hnext hterm hpushes hstack =>
    refine h.atHeight_of_leads hf ⟨hg.1, hg.2, hg.3⟩ hp hoffset (.inl ⟨hterm, hnext⟩) ?_
    dsimp only at hstack
    omega

theorem step_ne_stackUnderflow (h : HasHeights K m compiled placed height)
    (hm : f.method = compiled) (hf : f.AtHeight placed height 0) :
    f.step className s ≠ .fail (.error .stackUnderflow) s' := by
  intro hstep
  obtain ⟨p, hp, hoffset, hfollows⟩ := h.exists_follows hm hf className s
  rw [hstep] at hfollows
  cases hfollows with
  | fail _ _ hdefect =>
    cases hdefect .stackUnderflow rfl trivial with
    | operands hlt =>
      have hpops := h.stackMap.pops_le p hp
      have hlength := hf.length_stack
      rw [← hoffset] at hlength
      dsimp only at hlt
      omega
    | slot hslot =>
      refine hslot ?_
      dsimp only
      rw [hf.size_locals, hm]
      exact h.slots p hp

/-- All frames of the method are at their heights, whatever class runs. -/
theorem frameInvariant_atHeight (h : HasHeights K m compiled placed height) (c : Class) :
    FrameInvariant c (fun f ↦ f.method = compiled → f.AtHeight placed height 0)
      (fun f ↦ f.method = compiled → f.AtHeight placed height 1) where
  enter := by
    rintro name owner index method constants arguments _ _ rfl
    exact h.atHeight_enter constants arguments
  keep := by
    intro f g s s' hf hstep hm
    -- The frame before the step runs the same method, and so was at its height.
    obtain ⟨i, -, hfollows⟩ := Frame.follows_of_step hstep nofun nofun
    have hfm : f.method = compiled := by
      cases hfollows with
      | next _ _ hg => exact hg.method_eq.symm.trans hm
      | jump _ _ _ _ _ hg => exact hg.method_eq.symm.trans hm
    exact h.atHeight_of_continue hfm (hf hfm) hstep
  call := by
    intro f g s s' name arguments hf hstep hm
    obtain ⟨i, -, hfollows⟩ := Frame.follows_of_step hstep nofun nofun
    have hfm : f.method = compiled := by
      cases hfollows with
      | call _ _ _ _ hg => exact hg.method_eq.symm.trans hm
    exact h.atHeight_of_call hfm (hf hfm) hstep
  resume := by
    intro g v hg hm
    obtain ⟨hplaced, hlength, hlocals⟩ := hg hm
    exact ⟨hplaced, hlength, hlocals⟩

end Method.HasHeights

/-- Every generated method has heights for its offsets, which no run of it ever leaves, in whatever
class it runs: whenever a frame of the method is about to fetch, its stack is as high as the map
says, and the instruction does not underflow it. -/
theorem heights_of_compile {node : ClassNode} {debug : Bool} {file : ClassFile}
    (hcompile : node.compile debug = .ok file)
    (hsize : ∀ compiled ∈ file.methods, compiled.code.size < 2 ^ 31) {i : Nat}
    {compiled : CompiledMethod} (hcompiled : file.methods[i]? = some compiled) :
    ∃ m, node.methods[i]? = some m ∧ ∃ placed height,
      Method.HasHeights file.constants m compiled placed height ∧
        ∀ (c : Class) (name : String) (arguments : List Value) (s : ScriptState) (e : Execution),
          Progress.Reaches c (Execution.call c name arguments [] s) (.running e) →
            e.frame.method = compiled →
              (∃ p ∈ placed, p.offset = e.frame.offset) ∧
                e.frame.stack.length = height e.frame.offset ∧
                ∀ s', e.frame.step c.name e.state ≠ .fail (.error .stackUnderflow) s' := by
  obtain ⟨m, hm, hemits⟩ := (ClassNode.emits_of_compile hcompile).exists_method hcompiled
  obtain ⟨placed, height, h⟩ := hemits.exists_heights (hsize _ (List.mem_of_getElem? hcompiled))
  refine ⟨m, hm, placed, height, h, fun c name arguments s e hreaches hmethod ↦ ?_⟩
  have hframe := ((h.frameInvariant_atHeight c).frames_of_reaches hreaches).1 hmethod
  exact ⟨hframe.exists_placed, hframe.length_stack, fun s' ↦
    h.step_ne_stackUnderflow hmethod hframe⟩

/-! A method that calls itself from a loop, and so has a frame in the middle of the loop for every
call that is waiting. -/

def knockMethod : Method where
  name := "knock"
  parameters := []
  body := [.loop (.constant (.bool true) .none) (.expression (.call "knock" [] .none)) .none]
  span := .none

def knockNode : ClassNode := ⟨"Knocker", none, false, [knockMethod]⟩

def knockCode : List Instr :=
  [.pushTrue, .jump .ifFalse 13, .invokeMethod 0 0, .pop, .jump .always (-19), .returnNull]

def compiledKnock : CompiledMethod := ⟨"knock", 0, 0, 0, (knockCode.flatMap Instr.encode).toArray⟩

def knockFile : ClassFile :=
  { ClassFile.empty "Knocker" none with
    constants := { strings := #["knock"] }
    methods := [compiledKnock] }

theorem compile_knockNode : knockNode.compile false = .ok knockFile := by decide +kernel

theorem knockNode_heights :
    knockNode.compile false = .ok knockFile ∧
      (∀ compiled ∈ knockFile.methods, compiled.code.size < 2 ^ 31) ∧
      ∃ m, knockNode.methods[0]? = some m ∧ ∃ placed height,
        Method.HasHeights knockFile.constants m compiledKnock placed height := by
  have hsize : ∀ compiled ∈ knockFile.methods, compiled.code.size < 2 ^ 31 := by decide
  obtain ⟨m, hm, placed, height, h, -⟩ := heights_of_compile compile_knockNode hsize (i := 0) rfl
  exact ⟨compile_knockNode, hsize, m, hm, placed, height, h⟩

end BuildScript
