import BuildScript.Proofs.Machine.VerifiedRuns

/-!
# Underflow in verified code

Verification does not look at the operand stack, so verified code can underflow it. This module says
exactly when: the machine stands at an instruction that takes more operands than the frame has,
`underflows_iff`. It also says what a verifier would have to check besides. A `StackFloor` bounds
the height of the stack from below before each instruction; unlike a stack map it allows the height
of an instruction to depend on the way that led there, as long as no way leads below the floor.

## Natives

Native methods are functions that may report any error, so they are kept apart by hypothesis: a
class is `Quiet` if none of its native methods claims an underflow of its own.
-/

namespace BuildScript

/-- A method whose bytes are those of a list of instructions is read as this list. -/
theorem CompiledMethod.instructions_of_code {m : CompiledMethod} {code : List Instr}
    (h : m.code = (code.flatMap Instr.encode).toArray) : m.instructions = .ok (place 0 code) := by
  have hstand := Instr.standAt_flatMap_encode code [] []
  rw [List.nil_append, List.append_nil] at hstand
  refine instructions_eq_ok_iff.mpr ⟨code, rfl, by rwa [h], ?_⟩
  rw [h, List.size_toArray, length_flatMap_encode]

/-! ## Floors -/

/-- A lower bound for the height of the stack before each instruction. No instruction takes more
operands than the bound, and no edge of the control flow leads below the bound at its target. -/
structure StackFloor (placed : List Placed) (floor : Nat → Nat) : Prop where
  start : floor 0 = 0
  pops_le : ∀ p ∈ placed, p.instr.pops ≤ floor p.offset
  flow : ∀ p ∈ placed, ∀ t, p.Leads t → floor t ≤ p.instr.heightAfter (floor p.offset)

/-- Heights that agree along every edge are a floor. -/
theorem StackMap.floor {placed : List Placed} {height : Nat → Nat} (h : StackMap placed height) :
    StackFloor placed height where
  start := h.start
  pops_le := h.pops_le
  flow := fun p hp t ht ↦ Nat.le_of_eq (h.flow p hp t ht)

/-! ## Instructions that underflow -/

namespace Frame

variable {f : Frame} {s s' : ScriptState} {className : String} {placed : List Placed} {p : Placed}

theorem withTop_of_empty {k : Value → Frame → Effect} (h : f.stack = []) :
    f.withTop s k = error .stackUnderflow s := by
  rw [withTop, h]

theorem withTops_of_short {n : Nat} {k : List Value → Frame → Effect} (h : f.stack.length < n) :
    f.withTops s n k = error .stackUnderflow s := by
  rw [withTops, LittleEndian.split?_eq_none_iff.mpr h]

theorem withString_of_exists {index : UInt32} {k : String → Effect}
    (h : index.toNat < f.constants.strings.size) :
    f.withString s index k = k f.constants.strings[index.toNat] := by
  rw [withString, ConstantPool.getString?, Array.getElem?_eq_getElem h]

/-- Two operands are taken one after the other, so either of them may be the missing one. -/
theorem withTop_withTop_of_short {k : Value → Value → Frame → Effect} (h : f.stack.length < 2) :
    (f.withTop s fun right f ↦ f.withTop s fun left f ↦ k right left f) =
      error .stackUnderflow s := by
  cases hstack : f.stack with
  | nil => exact withTop_of_empty hstack
  | cons v stack =>
    have hempty : stack = [] := by
      rw [hstack, List.length_cons] at h
      exact List.eq_nil_of_length_eq_zero (by omega)
    rw [withTop, hstack, hempty]
    exact withTop_of_empty rfl

/-- An instruction whose constant exists underflows whenever it finds too few operands. -/
theorem execute_of_short {i : Instr} (hconstant : i.ConstantExists f.constants)
    (h : f.stack.length < i.pops) :
    f.execute className s i = .fail (.error .stackUnderflow) s := by
  have hempty (hone : i.pops = 1) : f.stack = [] :=
    List.eq_nil_of_length_eq_zero (by omega)
  cases i with
  | nop | pushNull | pushTrue | pushFalse | pushInt | pushFloat | pushStr | pushClass | loadLocal
  | loadVar | returnNull => exact absurd h (Nat.not_lt_zero _)
  | pop | dup | storeLocal | negate | not | «return» =>
    rw [execute]
    exact withTop_of_empty (hempty rfl)
  | storeVar name | getProperty name =>
    rw [execute, withString_of_exists hconstant]
    exact withTop_of_empty (hempty rfl)
  | arithmetic op | compare op =>
    rw [execute]
    exact withTop_withTop_of_short h
  | jump kind distance =>
    cases kind with
    | always => exact absurd h (Nat.not_lt_zero _)
    | ifFalse | ifTrue =>
      rw [execute]
      exact withTop_of_empty (hempty rfl)
  | invokeMethod name count =>
    rw [execute, withString_of_exists hconstant]
    exact withTops_of_short h
  | newList count =>
    rw [execute]
    exact withTops_of_short h
  | invokeVirtual name count =>
    rw [execute, withString_of_exists hconstant]
    -- Either an argument is missing, or all arguments are there and the receiver is not.
    by_cases hcount : f.stack.length < count.toNat
    · exact withTops_of_short hcount
    · have hlength : f.stack.length = count.toNat :=
        Nat.le_antisymm (Nat.lt_succ_iff.mp h) (Nat.not_lt.mp hcount)
      have hsplit := LittleEndian.split?_append hlength []
      rw [List.append_nil] at hsplit
      rw [withTops, hsplit]
      exact withTop_of_empty rfl

/-- A verified frame underflows exactly if it has fewer operands than its next instruction takes. -/
theorem Fetches.underflows_iff (h : f.Fetches placed p) :
    (∃ s', f.step className s = .fail (.error .stackUnderflow) s') ↔
      f.stack.length < p.instr.pops := by
  constructor
  · rintro ⟨s', hstep⟩
    exact (h.eq_stackUnderflow_of_fail hstep trivial).2
  · intro hshort
    refine ⟨s, ?_⟩
    rw [step_of_at? h.at?_offset]
    exact execute_of_short (h.wellFormed.constants p h.mem) hshort

end Frame

/-! ## Runs that underflow -/

/-- No native method of the class or its superclasses reports an underflow. -/
def Class.Quiet (c : Class) : Prop :=
  ∀ entry ∈ c.chain, ∀ methods, entry.body = .native methods → ∀ m ∈ methods,
    ∀ className arguments s, (m.2 className arguments s).1 ≠ .error .stackUnderflow

namespace Outcome

/-- The run has ended with an underflow. -/
def Underflowed (o : Outcome) : Prop := o.result = .error (.error .stackUnderflow)

end Outcome

namespace Execution

variable {c : Class} {name : String} {arguments : List Value} {frames : List Frame}
  {s : ScriptState} {e : Execution} {o : Outcome}

theorem not_underflowed_of_resume {v : Value} (h : resume frames s v = .finished o) :
    ¬o.Underflowed := by
  cases frames with
  | nil =>
    cases h
    exact nofun
  | cons f callers => cases h

/-- The native method that is found belongs to a native class of the chain. -/
theorem ne_stackUnderflow_of_native (hc : c.Quiet) {run : NativeMethod}
    (hfound : c.findMethod? name = some (.native run)) :
    (run c.name arguments s).1 ≠ .error .stackUnderflow := by
  obtain ⟨entry, hentry, hfound⟩ := List.exists_of_findSome?_eq_some hfound
  rw [ClassEntry.findMethod?] at hfound
  split at hfound
  · next methods hbody =>
    obtain ⟨run', hlookup, hrun⟩ := Option.map_eq_some_iff.mp hfound
    cases hrun
    obtain ⟨l₁, l₂, heq, -⟩ := List.lookup_eq_some_iff.mp hlookup
    have hmem : (name, run) ∈ methods := by
      rw [heq]
      exact List.mem_append_right _ List.mem_cons_self
    exact hc entry hentry methods hbody _ hmem _ _ _
  · obtain ⟨i, -, hfound⟩ := Option.bind_eq_some_iff.mp hfound
    obtain ⟨m, -, hfound⟩ := Option.map_eq_some_iff.mp hfound
    cases hfound

theorem not_underflowed_of_call (hc : c.Quiet) (h : call c name arguments frames s = .finished o) :
    ¬o.Underflowed := by
  rw [call.eq_def] at h
  intro hunder
  split at h
  · cases h
    cases hunder
  · next run hfound =>
    split at h
    · exact not_underflowed_of_resume h hunder
    · next err s' hrun =>
      cases h
      cases hunder
      exact ne_stackUnderflow_of_native hc hfound (congrArg Prod.fst hrun)
  · split at h
    · cases h
      cases hunder
    · split at h
      · cases h
        cases hunder
      · cases h

/-- A step that ends a run with an underflow is the underflow of a frame. -/
theorem fails_of_step (hc : c.Quiet) (h : e.step c = .finished o) (ho : o.Underflowed) :
    ∃ s', e.frame.step c.name e.state = .fail (.error .stackUnderflow) s' := by
  rw [step] at h
  split at h
  · cases h
  · exact absurd ho (not_underflowed_of_call hc h)
  · exact absurd ho (not_underflowed_of_resume h)
  · next failure s' hstep =>
    cases h
    cases ho
    exact ⟨s', hstep⟩

/-- A run that ends with an underflow has come to a frame that underflows, unless it had ended
before it began. -/
theorem exists_frame_of_run (hc : c.Quiet) {fuel : Nat} {p : Progress}
    (hp : ∀ o, p = .finished o → ¬o.Underflowed) (h : run c fuel p = some o)
    (ho : o.Underflowed) :
    ∃ e, Progress.Reaches c p (.running e) ∧
      ∃ s', e.frame.step c.name e.state = .fail (.error .stackUnderflow) s' := by
  rcases Progress.eq_or_exists_last_of_run h with hend | ⟨e, hreaches, hend⟩
  · exact absurd ho (hp o hend)
  · exact ⟨e, hreaches, fails_of_step hc hend ho⟩

end Execution

namespace Class

variable {c : Class} {name : String} {arguments : List Value} {s : ScriptState}

/-- An invocation of a verified class underflows exactly if its run comes to an instruction that
takes more operands than there are. -/
theorem Verified.underflows_iff (hc : c.Verified) (hq : c.Quiet) :
    (∃ fuel o, c.invoke fuel name arguments s = some o ∧ o.Underflowed) ↔
      ∃ e placed p, Progress.Reaches c (Execution.call c name arguments [] s) (.running e) ∧
        e.frame.Fetches placed p ∧ e.frame.stack.length < p.instr.pops := by
  constructor
  · rintro ⟨fuel, o, hrun, ho⟩
    obtain ⟨e, hreaches, hfails⟩ := Execution.exists_frame_of_run hq
      (fun o' heq ↦ Execution.not_underflowed_of_call hq heq) hrun ho
    obtain ⟨⟨placed, p, hfetches⟩, -⟩ := (frameInvariant_fetches hc).frames_of_reaches hreaches
    exact ⟨e, placed, p, hreaches, hfetches, hfetches.underflows_iff.mp hfails⟩
  · rintro ⟨e, placed, p, hreaches, hfetches, hshort⟩
    obtain ⟨s', hstep⟩ := hfetches.underflows_iff.mpr hshort
    obtain ⟨fuel, hrun⟩ := hreaches.exists_run_of_fail hstep
    exact ⟨fuel, _, hrun, rfl⟩

/-- Every compiled method of the class and its superclasses has a floor. -/
def Floored (c : Class) : Prop :=
  ∀ entry ∈ c.chain, ∀ file, entry.body = .compiled file → ∀ m ∈ file.methods,
    ∀ placed, m.instructions = .ok placed → ∃ floor, StackFloor placed floor

end Class

/-! ## Runs above the floor -/

/-- The frame fetches an instruction, and its stack is at most `missing` operands below a floor of
its method. -/
def Frame.AboveFloor (f : Frame) (missing : Nat) : Prop :=
  ∃ placed p floor, f.Fetches placed p ∧ StackFloor placed floor ∧
    floor f.offset ≤ f.stack.length + missing

namespace Frame

variable {f g : Frame} {s s' : ScriptState} {className : String}

/-- Where an instruction leads, the stack is above the floor again. -/
theorem aboveFloor_of_leads {placed : List Placed} {p q : Placed} {floor : Nat → Nat}
    {missing : Nat} (h : f.Fetches placed p) (hfloor : StackFloor placed floor)
    (hf : floor f.offset ≤ f.stack.length) (hq : g.Fetches placed q) (hleads : p.Leads g.offset)
    (hstack : g.stack.length + missing + p.instr.pops = f.stack.length + p.instr.pushes) :
    g.AboveFloor missing := by
  refine ⟨placed, q, floor, hq, hfloor, ?_⟩
  have hflow := hfloor.flow p h.mem _ hleads
  have hpops := hfloor.pops_le p h.mem
  rw [h.offset_eq] at hflow hpops
  rw [Instr.heightAfter] at hflow
  omega

theorem aboveFloor_of_continue (h : f.AboveFloor 0) (hstep : f.step className s = .continue g s') :
    g.AboveFloor 0 := by
  obtain ⟨placed, p, floor, hfetches, hfloor, hheight⟩ := h
  have hfollows := hfetches.step_follows className s
  rw [hstep] at hfollows
  cases hfollows with
  | next _ _ hg hoffset hterm hstack =>
    obtain ⟨q, hq, hnext⟩ := hfetches.wellFormed.exists_next hfetches.mem hterm
    exact aboveFloor_of_leads hfetches hfloor hheight
      (hfetches.of_sameCode ⟨hg.1, hg.2, hg.3⟩ hq (hnext.trans hoffset.symm))
      (.inl ⟨hterm, hoffset⟩) hstack
  | jump kind distance _ _ hjump hg hoffset hstack =>
    obtain ⟨q, hq, htarget⟩ := hfetches.wellFormed.lands p hfetches.mem kind distance hjump
    exact aboveFloor_of_leads hfetches hfloor hheight
      (hfetches.of_sameCode ⟨hg.1, hg.2, hg.3⟩ hq (Int.ofNat_inj.mp (htarget.trans hoffset.symm)))
      (.inr ⟨kind, distance, hjump, hoffset⟩) hstack

theorem aboveFloor_of_call {name : String} {arguments : List Value} (h : f.AboveFloor 0)
    (hstep : f.step className s = .call name arguments g s') : g.AboveFloor 1 := by
  obtain ⟨placed, p, floor, hfetches, hfloor, hheight⟩ := h
  have hfollows := hfetches.step_follows className s
  rw [hstep] at hfollows
  cases hfollows with
  | call _ _ _ _ hg hoffset hterm hpushes hstack =>
    obtain ⟨q, hq, hnext⟩ := hfetches.wellFormed.exists_next hfetches.mem hterm
    refine aboveFloor_of_leads hfetches hfloor hheight
      (hfetches.of_sameCode ⟨hg.1, hg.2, hg.3⟩ hq (hnext.trans hoffset.symm))
      (.inl ⟨hterm, hoffset⟩) ?_
    dsimp only at hstack
    omega

theorem AboveFloor.pops_le (h : f.AboveFloor 0) {placed : List Placed} {p : Placed}
    (hp : f.Fetches placed p) : p.instr.pops ≤ f.stack.length := by
  obtain ⟨placed', q, floor, hq, hfloor, hheight⟩ := h
  -- One method has one reading, and one instruction at an offset.
  have hinstr : q.instr = p.instr := by
    have hat := hq.at?_offset.symm.trans hp.at?_offset
    exact Except.ok.inj (Option.some.inj hat)
  have hpops := hfloor.pops_le q hq.mem
  rw [hq.offset_eq] at hpops
  rw [← hinstr]
  omega

end Frame

/-- All frames of a floored class stay above their floors. -/
theorem frameInvariant_aboveFloor {c : Class} (hc : c.Verified) (hfloor : c.Floored) :
    FrameInvariant c (·.AboveFloor 0) (·.AboveFloor 1) where
  enter := by
    intro name owner index method constants arguments hfound _
    obtain ⟨howner, file, hbody, rfl, hmethod, -⟩ := Class.findMethod?_eq_some_compiled hfound
    have hmem := List.mem_of_getElem? hmethod
    obtain ⟨placed, hm⟩ :=
      (ClassFile.verify_eq_ok_iff.mp (hc owner howner file hbody)).methods method hmem
    obtain ⟨floor, hplaced⟩ := hfloor owner howner file hbody method hmem placed hm.instructions_eq
    obtain ⟨p, hfetches⟩ : ∃ p, (Frame.enter method file.constants arguments).Fetches placed p :=
      fetches_enter hm
    exact ⟨placed, p, floor, hfetches, hplaced, Nat.le_of_eq hplaced.start⟩
  keep := fun h hstep ↦ Frame.aboveFloor_of_continue h hstep
  call := fun h hstep ↦ Frame.aboveFloor_of_call h hstep
  resume := by
    rintro g v ⟨placed, p, floor, hfetches, hplaced, hheight⟩
    exact ⟨placed, p, floor, hfetches.of_sameCode ⟨rfl, rfl, rfl⟩ hfetches.mem hfetches.offset_eq,
      hplaced, hheight⟩

/-- The outcomes of calls made one after the other on one script, each in the state that the one
before has left behind. A call that takes more than `fuel` steps is the last one. -/
def Class.invokeAll (c : Class) (fuel : Nat) : List (String × List Value) → ScriptState → List Outcome
  | [], _ => []
  | (name, arguments) :: calls, s =>
    match c.invoke fuel name arguments s with
    | none => []
    | some o => o :: c.invokeAll fuel calls o.state

theorem Class.exists_invoke_of_mem {c : Class} {fuel : Nat} {calls : List (String × List Value)}
    {s : ScriptState} {o : Outcome} (h : o ∈ c.invokeAll fuel calls s) :
    ∃ name arguments s', c.invoke fuel name arguments s' = some o := by
  induction calls generalizing s with
  | nil => cases h
  | cons call calls ih =>
    obtain ⟨name, arguments⟩ := call
    rw [invokeAll] at h
    split at h
    · cases h
    · next o' hinvoke =>
      rcases List.mem_cons.mp h with rfl | h
      · exact ⟨name, arguments, s, hinvoke⟩
      · exact ih h

/-- What verified code does about underflows. An invocation underflows exactly if its run comes to
an instruction that takes more operands than the frame has; and if the stack has a floor in every
method of the class and its superclasses, no invocation in any sequence of them underflows. -/
theorem underflow_in_verified_code {c : Class} (hc : c.Verified) (hq : c.Quiet) :
    (∀ name arguments s, (∃ fuel o, c.invoke fuel name arguments s = some o ∧ o.Underflowed) ↔
      ∃ e placed p, Progress.Reaches c (Execution.call c name arguments [] s) (.running e) ∧
        e.frame.Fetches placed p ∧ e.frame.stack.length < p.instr.pops) ∧
    (c.Floored → ∀ fuel calls s, ∀ o ∈ c.invokeAll fuel calls s, ¬o.Underflowed) := by
  refine ⟨fun name arguments s ↦ hc.underflows_iff hq, fun hfloor fuel calls s o ho hunder ↦ ?_⟩
  obtain ⟨name, arguments, s', hinvoke⟩ := Class.exists_invoke_of_mem ho
  obtain ⟨e, placed, p, hreaches, hfetches, hshort⟩ :=
    (hc.underflows_iff hq).mp ⟨fuel, o, hinvoke, hunder⟩
  have habove := ((frameInvariant_aboveFloor hc hfloor).frames_of_reaches hreaches).1
  exact Nat.not_lt.mpr (habove.pops_le hfetches) hshort

/-! The stack of this class is one higher behind the jump if the jump is not taken, so it has a floor
and no stack map. Its superclass is native. -/

def branchCode : List Instr := [.pushTrue, .jump .ifTrue 1, .pushNull, .returnNull]

def branchMethod : CompiledMethod :=
  ⟨"run", 0, 0, 0, (branchCode.flatMap Instr.encode).toArray⟩

def branchFile : ClassFile :=
  { ClassFile.empty "Branch" (some scriptClassName) with methods := [branchMethod] }

def branchClass : Class :=
  .compiled 1 branchFile (some (.native 0 scriptClassName none [("println", printLine)]))

theorem instructions_branchMethod : branchMethod.instructions = .ok (place 0 branchCode) :=
  CompiledMethod.instructions_of_code rfl

theorem wellFormed_branchMethod : branchMethod.WellFormed {} (place 0 branchCode) where
  params_le_locals := by decide
  instructions_eq := instructions_branchMethod
  constants := by decide
  slots := by decide
  lands := by
    intro p hp kind distance hi
    simp only [branchCode, place_cons, place_nil, List.mem_cons, List.not_mem_nil, or_false] at hp
    rcases hp with rfl | rfl | rfl | rfl
    · cases hi
    · cases hi
      exact ⟨⟨7, .returnNull⟩, List.mem_of_getElem? (i := 3) rfl, rfl⟩
    · cases hi
    · cases hi
  last := ⟨⟨7, .returnNull⟩, rfl, rfl⟩

/-- Only behind the first instruction there is an operand on every way. -/
theorem stackFloor_branchCode : StackFloor (place 0 branchCode) fun o ↦ if o = 1 then 1 else 0 where
  start := rfl
  pops_le := by decide
  flow := by
    intro p hp t ht
    simp only [branchCode, place_cons, place_nil, List.mem_cons, List.not_mem_nil, or_false] at hp
    have hle : (if t = 1 then 1 else 0) ≤ 1 := by split <;> decide
    rcases hp with rfl | rfl | rfl | rfl
    · exact hle
    · have hne : t ≠ 1 := by
        rcases ht with ⟨-, rfl⟩ | ⟨kind, distance, hjump, htarget⟩
        · decide
        · cases hjump
          rintro rfl
          exact absurd htarget (by decide)
      dsimp only
      rw [if_neg hne]
      exact Nat.zero_le _
    · exact hle
    · rcases ht with ⟨hterm, -⟩ | ⟨kind, distance, hjump, -⟩
      · cases hterm
      · cases hjump

theorem verified_branchClass : branchClass.Verified := by
  intro entry hentry file hbody
  rcases List.mem_cons.mp hentry with rfl | hentry
  · cases hbody
    exact ClassFile.verify_eq_ok_iff.mpr ⟨rfl, rfl, by decide, by decide, by
      simpa [branchFile, ClassFile.empty] using ⟨_, wellFormed_branchMethod⟩⟩
  · obtain rfl := List.mem_singleton.mp hentry
    cases hbody

theorem printLine_ne_stackUnderflow (className : String) (arguments : List Value)
    (s : ScriptState) : (printLine className arguments s).1 ≠ .error .stackUnderflow := by
  rw [printLine.eq_def]
  split <;> exact nofun

theorem quiet_branchClass : branchClass.Quiet := by
  intro entry hentry methods hbody m hm className arguments s
  rcases List.mem_cons.mp hentry with rfl | hentry
  · cases hbody
  · obtain rfl := List.mem_singleton.mp hentry
    cases hbody
    obtain rfl := List.mem_singleton.mp hm
    exact printLine_ne_stackUnderflow className arguments s

theorem floored_branchClass : branchClass.Floored := by
  intro entry hentry file hbody m hm placed hplaced
  rcases List.mem_cons.mp hentry with rfl | hentry
  · cases hbody
    obtain rfl := List.mem_singleton.mp hm
    obtain rfl := Except.ok.inj (instructions_branchMethod.symm.trans hplaced)
    exact ⟨_, stackFloor_branchCode⟩
  · obtain rfl := List.mem_singleton.mp hentry
    cases hbody

theorem branchClass_never_underflows :
    branchClass.Verified ∧ branchClass.Quiet ∧ branchClass.Floored ∧
      ∀ o ∈ branchClass.invokeAll 9 [("run", []), ("println", [.int 7])] {}, ¬o.Underflowed := by
  refine ⟨verified_branchClass, quiet_branchClass, floored_branchClass, ?_⟩
  exact (underflow_in_verified_code verified_branchClass quiet_branchClass).2 floored_branchClass
    9 _ {}

/-! A class that takes an operand off the empty stack. -/

def popMethod : CompiledMethod :=
  ⟨"run", 0, 0, 0, (List.flatMap Instr.encode [.pop, .returnNull]).toArray⟩

def popFile : ClassFile := { ClassFile.empty "Pop" none with methods := [popMethod] }

theorem wellFormed_popMethod : popMethod.WellFormed {} (place 0 [.pop, .returnNull]) where
  params_le_locals := by decide
  instructions_eq := CompiledMethod.instructions_of_code rfl
  constants := by decide
  slots := by decide
  lands := by
    intro p hp kind distance hi
    simp only [place_cons, place_nil, List.mem_cons, List.not_mem_nil, or_false] at hp
    rcases hp with rfl | rfl <;> cases hi
  last := ⟨⟨1, .returnNull⟩, rfl, rfl⟩

def popClass : Class := .compiled 0 popFile none

/-- Verified code underflows: the only method of this class does at its first instruction. -/
theorem popClass_verified_and_underflows :
    popClass.Verified ∧ popClass.Quiet ∧
      popClass.invoke 1 "run" [] {} = some ⟨.error (.error .stackUnderflow), {}⟩ := by
  refine ⟨fun entry hentry file hbody ↦ ?_, fun entry hentry methods hbody ↦ ?_, rfl⟩
  · obtain rfl := List.mem_singleton.mp hentry
    cases hbody
    exact ClassFile.verify_eq_ok_iff.mpr ⟨rfl, rfl, by decide, by decide, by
      simpa [popFile, ClassFile.empty] using ⟨_, wellFormed_popMethod⟩⟩
  · obtain rfl := List.mem_singleton.mp hentry
    cases hbody

end BuildScript
