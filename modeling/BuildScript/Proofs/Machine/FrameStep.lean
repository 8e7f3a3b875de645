import BuildScript.Proofs.Bytecode.StackMap
import BuildScript.Proofs.Bytecode.WellFormed
import BuildScript.Proofs.Machine.Steps

/-!
# What one instruction does to a frame

`Frame.Follows f i` lists everything that running the instruction `i` in the frame `f` can lead to:
on to the next instruction, to the target of a jump, into a call, out of the method, or to a
failure. It says how the stack grows and where the frame goes on, and which defect of the code each
failure that blames the code comes from. `execute_follows` is proved once, by cases on the
instruction, and nothing later unfolds `Frame.execute` for anything but a known instruction.

`FrameInvariant` and `frames_of_reaches` carry this to whole runs: what holds when a method is
entered and is kept by every step of a frame holds of all frames of all reachable states.
-/

namespace BuildScript

/-! ## Failures that blame the code -/

/-- The error says that the code is broken, and not that a value was unfit. -/
def RunError.BlamesCode : RunError → Prop
  | stackUnderflow | invalidOpcode _ | runtimeError (.codeEnds _)
  | runtimeError (.constantIndex _) | runtimeError (.jumpOutside _ _) => True
  | _ => False

namespace Value

theorem not_blamesCode_of_property {v : Value} {name : String} {e : RunError}
    (h : v.property name = .error e) : ¬e.BlamesCode := by
  rw [property.eq_def] at h
  split at h <;> cases h
  exact id

theorem not_blamesCode_of_element {l : List Value} {index : Int64} {e : RunError}
    (h : element l index = .error e) : ¬e.BlamesCode := by
  rw [element] at h
  split at h
  · cases h
    exact id
  · split at h <;> cases h
    exact id

theorem not_blamesCode_of_invoke {v : Value} {name : String} {arguments : List Value} {e : RunError}
    (h : v.invoke name arguments = .error e) : ¬e.BlamesCode := by
  rw [invoke.eq_def] at h
  split at h
  all_goals first
    | exact not_blamesCode_of_element h
    | cases h
  all_goals exact id

theorem not_blamesCode_of_ofInt? {n : Int} {e : RunError} (h : ofInt? n = .error (.error e)) :
    ¬e.BlamesCode := by
  rw [ofInt?] at h
  split at h <;> cases h
  exact id

theorem not_blamesCode_of_ofInts {op : Arithmetic} {a b : Int64} {e : RunError}
    (h : ofInts op a b = .error (.error e)) : ¬e.BlamesCode := by
  cases op with
  | add | subtract | multiply => exact not_blamesCode_of_ofInt? h
  | divide =>
    dsimp only [ofInts] at h
    split at h
    · cases h; exact id
    · split at h
      · cases h
      · split at h
        · exact not_blamesCode_of_ofInt? h
        · cases h
  | remainder =>
    dsimp only [ofInts] at h
    split at h
    · cases h; exact id
    · split at h <;> cases h
      exact id

theorem not_blamesCode_of_ofFloats {op : Arithmetic} {x y : Binary64} {e : RunError}
    (h : ofFloats op x y = .error (.error e)) : ¬e.BlamesCode := by
  cases op with
  | add | subtract | multiply => cases h
  | divide | remainder =>
    dsimp only [ofFloats] at h
    split at h <;> cases h
    exact id

theorem not_blamesCode_of_combine {op : Arithmetic} {a b : Value} {e : RunError}
    (h : combine op a b = .error (.error e)) : ¬e.BlamesCode := by
  have hnumbers (h : ofNumbers op a b = .error (.error e)) : ¬e.BlamesCode := by
    rw [ofNumbers.eq_def] at h
    split at h
    · exact not_blamesCode_of_ofInts h
    · split at h
      · exact not_blamesCode_of_ofFloats h
      · cases h; exact id
  rw [combine.eq_def] at h
  split at h
  all_goals first
    | exact hnumbers h
    | cases h

theorem not_blamesCode_of_negate {v : Value} {e : RunError}
    (h : v.negate = .error (.error e)) : ¬e.BlamesCode := by
  rw [negate.eq_def] at h
  split at h
  · exact not_blamesCode_of_ofInt? h
  · cases h
  · cases h; exact id

theorem not_blamesCode_of_order {a b : Value} {e : RunError}
    (h : a.order b = .error (.error e)) : ¬e.BlamesCode := by
  rw [order.eq_def] at h
  repeat' split at h
  all_goals cases h
  all_goals exact id

theorem not_blamesCode_of_compareBy {op : Comparison} {a b : Value} {e : RunError}
    (h : a.compareBy op b = .error (.error e)) : ¬e.BlamesCode := by
  have hmap {f : Ordering → Value} (h : (a.order b).map f = .error (.error e)) :
      ¬e.BlamesCode := by
    cases ho : a.order b with
    | ok o => rw [ho] at h; cases h
    | error e' => rw [ho] at h; cases h; exact not_blamesCode_of_order ho
  cases op with
  | equal | notEqual => cases h
  | _ => exact hmap h

end Value

/-! ## One instruction -/

namespace Frame

/-- The frame `g` runs the same code as `f`, with as many locals. -/
structure SameCode (g f : Frame) : Prop where
  method_eq : g.method = f.method
  constants_eq : g.constants = f.constants
  size_locals : g.locals.size = f.locals.size

theorem SameCode.refl (f : Frame) : SameCode f f := ⟨rfl, rfl, rfl⟩

theorem SameCode.trans {f g h : Frame} (hgf : SameCode g f) (hhg : SameCode h g) : SameCode h f :=
  ⟨hhg.method_eq.trans hgf.method_eq, hhg.constants_eq.trans hgf.constants_eq,
    hhg.size_locals.trans hgf.size_locals⟩

/-- A method is entered with as many locals as it declares, however many arguments there are. -/
theorem size_locals_enter (method : CompiledMethod) (constants : ConstantPool)
    (arguments : List Value) :
    (enter method constants arguments).locals.size = method.localCount.toNat := by
  simp only [enter, Array.size_append, List.size_toArray, List.length_take, Array.size_replicate]
  omega

/-- What is wrong with the instruction, or with the frame, when the machine blames the code. -/
inductive Defect (f : Frame) (i : Instr) : RunError → Prop where
  | operands : f.stack.length < i.pops → Defect f i .stackUnderflow
  | slot : ¬i.SlotExists f.locals.size → Defect f i .stackUnderflow
  | constant (index : UInt32) : ¬i.ConstantExists f.constants →
      Defect f i (.runtimeError (.constantIndex index))
  | target (kind : JumpKind) (distance : Int32) (name : String) : i = .jump kind distance →
      f.offset + distance.toInt < 0 ∨ (f.method.code.size : Int) < f.offset + distance.toInt →
      Defect f i (.runtimeError (.jumpOutside (f.offset + distance.toInt) name))

/-- Everything that running an instruction can lead to. The frame's offset is already that of the
next instruction in line. -/
inductive Follows (f : Frame) (i : Instr) : Effect → Prop where
  | next (g : Frame) (s : ScriptState) : g.SameCode f → g.offset = f.offset →
      i.opcode.isTerminator = false →
      g.stack.length + i.pops = f.stack.length + i.pushes → Follows f i (.continue g s)
  | jump (kind : JumpKind) (distance : Int32) (g : Frame) (s : ScriptState) :
      i = .jump kind distance → g.SameCode f → (g.offset : Int) = f.offset + distance.toInt →
      g.stack.length + i.pops = f.stack.length + i.pushes → Follows f i (.continue g s)
  | call (name : String) (arguments : List Value) (g : Frame) (s : ScriptState) :
      g.SameCode f → g.offset = f.offset → i.opcode.isTerminator = false → i.pushes = 1 →
      g.stack.length + i.pops = f.stack.length → Follows f i (.call name arguments g s)
  | return (v : Value) (s : ScriptState) : i.opcode.isReturn = true → Follows f i (.return v s)
  | fail (e : Failure) (s : ScriptState) :
      (∀ err, e = .error err → err.BlamesCode → f.Defect i err) → Follows f i (.fail e s)

variable {f g : Frame} {i : Instr} {s : ScriptState}

theorem Follows.error {err : RunError} (h : err.BlamesCode → f.Defect i err) :
    Follows f i (error err s) :=
  .fail _ _ fun _ heq ↦ Failure.error.inj heq ▸ h

theorem follows_withTop_of_empty {k : Value → Frame → Effect}
    (hempty : g.stack = [] → f.stack.length < i.pops)
    (hk : ∀ v stack, g.stack = v :: stack → Follows f i (k v { g with stack })) :
    Follows f i (g.withTop s k) := by
  rw [withTop]
  split
  · next v stack hstack => exact hk v stack hstack
  · next hstack => exact .error fun _ ↦ .operands (hempty hstack)

theorem follows_withTop {k : Value → Frame → Effect} (hpops : 0 < i.pops)
    (hk : ∀ v stack, f.stack = v :: stack → Follows f i (k v { f with stack })) :
    Follows f i (f.withTop s k) :=
  follows_withTop_of_empty (fun hstack ↦ by rwa [hstack]) hk

theorem split?_eq_some {n : Nat} {l front rest : List Value}
    (h : LittleEndian.split? n l = some (front, rest)) : l = front ++ rest ∧ front.length = n := by
  simp only [LittleEndian.split?] at h
  split at h
  · cases h
  · next hlen =>
    obtain ⟨rfl, rfl⟩ := Prod.mk.inj (Option.some.inj h)
    exact ⟨(List.take_append_drop n l).symm, by
      rw [List.length_take] at hlen ⊢
      omega⟩

theorem follows_withTops {n : Nat} {k : List Value → Frame → Effect}
    (hshort : f.stack.length < n → f.stack.length < i.pops)
    (hk : ∀ tops stack, f.stack.length = stack.length + n →
      Follows f i (k tops { f with stack })) :
    Follows f i (f.withTops s n k) := by
  rw [withTops]
  split
  · next tops stack hsplit =>
    obtain ⟨hstack, hlen⟩ := split?_eq_some hsplit
    refine hk _ _ ?_
    rw [hstack, List.length_append, hlen, Nat.add_comm]
  · next hsplit =>
    exact .error fun _ ↦ .operands (hshort (LittleEndian.split?_eq_none_iff.mp hsplit))

theorem follows_withString {index : UInt32} {k : String → Effect}
    (hindex : i.ConstantExists f.constants → index.toNat < f.constants.strings.size)
    (hk : ∀ name, Follows f i (k name)) : Follows f i (f.withString s index k) := by
  rw [withString]
  split
  · next name _ => exact hk name
  · next hnone =>
    refine .error fun _ ↦ .constant index fun hexists ↦ ?_
    rw [ConstantPool.getString?, Array.getElem?_eq_none_iff] at hnone
    exact Nat.not_lt.mpr hnone (hindex hexists)

/-- A result is pushed in place of the operands it was computed from. -/
theorem follows_pushResult {r : Except Failure Value} (hg : g.SameCode f)
    (hoffset : g.offset = f.offset) (hterm : i.opcode.isTerminator = false)
    (hstack : g.stack.length + 1 + i.pops = f.stack.length + i.pushes)
    (hr : ∀ err, r = .error (.error err) → ¬err.BlamesCode) :
    Follows f i (g.pushResult s r) := by
  cases r with
  | ok v => exact .next _ _ ⟨hg.1, hg.2, hg.3⟩ hoffset hterm (by simpa [push] using hstack)
  | error e => exact .fail _ _ fun err heq hblames ↦ absurd hblames (hr err (heq ▸ rfl))

theorem follows_pushConstant {index : UInt32} {v : Option Value}
    (hterm : i.opcode.isTerminator = false) (hpushes : i.pops = 0 ∧ i.pushes = 1)
    (hv : v = none → ¬i.ConstantExists f.constants) :
    Follows f i (f.pushConstant s index v) := by
  rw [pushConstant.eq_def]
  split
  · exact .next _ _ ⟨rfl, rfl, rfl⟩ rfl hterm (by simp [push, hpushes])
  · exact .error fun _ ↦ .constant index (hv rfl)

theorem follows_jump {kind : JumpKind} {distance : Int32} {stack : List Value}
    (hi : i = .jump kind distance) (hstack : stack.length + i.pops = f.stack.length) :
    Follows f i (jump { f with stack } s (f.offset + distance.toInt)) := by
  rw [jump]
  split
  · next houtside => exact .error fun _ ↦ .target kind distance _ hi houtside
  · next hinside =>
    refine .jump kind distance _ _ hi ⟨rfl, rfl, rfl⟩ ?_ (by simp [hi] at hstack ⊢; omega)
    dsimp only at hinside ⊢
    omega

theorem mapError_eq_error {r : Except RunError Value} {err : RunError}
    (h : r.mapError Failure.error = .error (.error err)) : r = .error err := by
  cases r with
  | ok v => cases h
  | error e => cases h; rfl

theorem execute_follows (className : String) (f : Frame) (s : ScriptState) (i : Instr) :
    Follows f i (f.execute className s i) := by
  cases i with
  | nop => exact .next _ _ (.refl f) rfl rfl rfl
  | pop =>
    rw [execute]
    refine follows_withTop Nat.one_pos fun v stack hstack ↦ ?_
    exact .next _ _ ⟨rfl, rfl, rfl⟩ rfl rfl (by rw [hstack]; rfl)
  | dup =>
    rw [execute]
    refine follows_withTop Nat.one_pos fun v stack hstack ↦ ?_
    exact .next _ _ ⟨rfl, rfl, rfl⟩ rfl rfl (by rw [hstack]; rfl)
  | pushNull | pushTrue | pushFalse => exact .next _ _ ⟨rfl, rfl, rfl⟩ rfl rfl rfl
  | pushInt index =>
    rw [execute]
    refine follows_pushConstant rfl ⟨rfl, rfl⟩ fun hnone hexists ↦ ?_
    rw [Option.map_eq_none_iff, ConstantPool.getInteger?, Array.getElem?_eq_none_iff] at hnone
    exact Nat.not_lt.mpr hnone hexists
  | pushFloat index =>
    rw [execute]
    refine follows_pushConstant rfl ⟨rfl, rfl⟩ fun hnone hexists ↦ ?_
    rw [Option.map_eq_none_iff, ConstantPool.getFloat?, Array.getElem?_eq_none_iff] at hnone
    exact Nat.not_lt.mpr hnone hexists
  | pushStr | pushClass =>
    rw [execute]
    exact follows_withString id fun name ↦ .next _ _ ⟨rfl, rfl, rfl⟩ rfl rfl rfl
  | loadLocal slot =>
    rw [execute]
    split
    · exact .next _ _ ⟨rfl, rfl, rfl⟩ rfl rfl rfl
    · next hnone =>
      refine .error fun _ ↦ .slot fun hexists ↦ ?_
      rw [Array.getElem?_eq_none_iff] at hnone
      exact Nat.not_lt.mpr hnone hexists
  | storeLocal slot =>
    rw [execute]
    refine follows_withTop Nat.one_pos fun v stack hstack ↦ ?_
    dsimp only
    split
    · exact .next _ _ ⟨rfl, rfl, Array.size_setIfInBounds⟩ rfl rfl
        (by rw [hstack]; rfl)
    · next hlt => exact .error fun _ ↦ .slot hlt
  | loadVar name =>
    rw [execute]
    refine follows_withString id fun name ↦ ?_
    split
    · exact .next _ _ ⟨rfl, rfl, rfl⟩ rfl rfl rfl
    · exact .error False.elim
  | storeVar name =>
    rw [execute]
    refine follows_withString id fun name ↦ follows_withTop Nat.one_pos fun v stack hstack ↦ ?_
    exact .next _ _ ⟨rfl, rfl, rfl⟩ rfl rfl (by rw [hstack]; rfl)
  | getProperty name =>
    rw [execute]
    refine follows_withString id fun name ↦ follows_withTop Nat.one_pos fun v stack hstack ↦ ?_
    exact follows_pushResult ⟨rfl, rfl, rfl⟩ rfl rfl (by rw [hstack]; rfl)
      fun err h ↦ Value.not_blamesCode_of_property (mapError_eq_error h)
  | arithmetic op =>
    rw [execute]
    refine follows_withTop Nat.two_pos fun right stack hright ↦
      follows_withTop_of_empty (fun h ↦ ?_) fun left stack' hleft ↦ ?_
    · obtain rfl : stack = [] := h
      rw [hright]
      exact Nat.one_lt_two
    · obtain rfl : stack = left :: stack' := hleft
      exact follows_pushResult ⟨rfl, rfl, rfl⟩ rfl rfl (by rw [hright]; rfl)
        fun err h ↦ Value.not_blamesCode_of_combine h
  | compare op =>
    rw [execute]
    refine follows_withTop Nat.two_pos fun right stack hright ↦
      follows_withTop_of_empty (fun h ↦ ?_) fun left stack' hleft ↦ ?_
    · obtain rfl : stack = [] := h
      rw [hright]
      exact Nat.one_lt_two
    · obtain rfl : stack = left :: stack' := hleft
      exact follows_pushResult ⟨rfl, rfl, rfl⟩ rfl rfl (by rw [hright]; rfl)
        fun err h ↦ Value.not_blamesCode_of_compareBy h
  | negate =>
    rw [execute]
    refine follows_withTop Nat.one_pos fun v stack hstack ↦ ?_
    exact follows_pushResult ⟨rfl, rfl, rfl⟩ rfl rfl (by rw [hstack]; rfl)
      fun err h ↦ Value.not_blamesCode_of_negate h
  | not =>
    rw [execute]
    refine follows_withTop Nat.one_pos fun v stack hstack ↦ ?_
    exact .next _ _ ⟨rfl, rfl, rfl⟩ rfl rfl (by rw [hstack]; rfl)
  | jump kind distance =>
    cases kind with
    | always => exact follows_jump (i := .jump .always distance) rfl rfl
    | ifFalse =>
      rw [execute]
      refine follows_withTop Nat.one_pos fun v stack hstack ↦ ?_
      split
      · exact .next _ _ ⟨rfl, rfl, rfl⟩ rfl rfl (by rw [hstack]; rfl)
      · exact follows_jump rfl (by rw [hstack]; rfl)
    | ifTrue =>
      rw [execute]
      refine follows_withTop Nat.one_pos fun v stack hstack ↦ ?_
      split
      · exact follows_jump rfl (by rw [hstack]; rfl)
      · exact .next _ _ ⟨rfl, rfl, rfl⟩ rfl rfl (by rw [hstack]; rfl)
  | invokeMethod name count =>
    rw [execute]
    refine follows_withString id fun name ↦ follows_withTops id fun arguments stack hstack ↦ ?_
    exact .call _ _ _ _ ⟨rfl, rfl, rfl⟩ rfl rfl rfl (by rw [hstack]; rfl)
  | invokeVirtual name count =>
    rw [execute]
    refine follows_withString id fun name ↦
      follows_withTops (fun h ↦ Nat.lt_succ_of_lt h) fun arguments stack hstack ↦
        follows_withTop_of_empty (fun h ↦ ?_) fun receiver rest hrest ↦ ?_
    · obtain rfl : stack = [] := h
      rw [hstack, List.length_nil, Nat.zero_add]
      exact Nat.lt_succ_self _
    · obtain rfl : stack = receiver :: rest := hrest
      exact follows_pushResult ⟨rfl, rfl, rfl⟩ rfl rfl
        (by rw [hstack]; rfl)
        fun err h ↦ Value.not_blamesCode_of_invoke (mapError_eq_error h)
  | newList count =>
    rw [execute]
    refine follows_withTops id fun l stack hstack ↦ ?_
    exact .next _ _ ⟨rfl, rfl, rfl⟩ rfl rfl (by rw [hstack]; exact Nat.add_right_comm _ _ _)
  | «return» =>
    rw [execute]
    exact follows_withTop Nat.one_pos fun v stack _ ↦ .return _ _ rfl
  | returnNull => exact .return _ _ rfl

/-- The instruction at the frame's offset is run in the frame moved behind it. -/
theorem step_of_at? {className : String} (h : Instr.at? f.method.code f.offset = some (.ok i)) :
    f.step className s = { f with offset := f.offset + i.size }.execute className s i := by
  rw [step, h]

/-- Code that is no instruction ends the method or the run. -/
theorem exists_at?_or_ends (className : String) (f : Frame) (s : ScriptState) :
    (∃ i, Instr.at? f.method.code f.offset = some (.ok i)) ∨
      (∃ v s', f.step className s = .return v s') ∨ ∃ e s', f.step className s = .fail e s' := by
  -- Running past the end returns null, and whatever cannot be decoded fails.
  cases hat : Instr.at? f.method.code f.offset with
  | none => exact .inr (.inl ⟨.null, s, by rw [step, hat]⟩)
  | some fetched =>
    cases fetched with
    | ok i => exact .inl ⟨i, rfl⟩
    | error fault =>
      refine .inr (.inr ?_)
      rw [step, hat]
      cases fault with
      | unknown byte => exact ⟨_, _, rfl⟩
      | cut op present =>
        dsimp only
        rw [executeCut]
        split
        · split
          · rw [withString]
            split <;> exact ⟨_, _, rfl⟩
          · exact ⟨_, _, rfl⟩
        · exact ⟨_, _, rfl⟩

/-- A frame that goes on or calls has run an instruction. -/
theorem follows_of_step {className : String} {effect : Effect} (h : f.step className s = effect)
    (hreturn : ∀ v s', effect ≠ .return v s') (hfail : ∀ e s', effect ≠ .fail e s') :
    ∃ i, Instr.at? f.method.code f.offset = some (.ok i) ∧
      Follows { f with offset := f.offset + i.size } i effect := by
  rcases exists_at?_or_ends className f s with ⟨i, hi⟩ | ⟨v, s', hend⟩ | ⟨e, s', hend⟩
  · refine ⟨i, hi, ?_⟩
    rw [← h, step_of_at? hi]
    exact execute_follows _ _ _ _
  · exact absurd (h.symm.trans hend) (hreturn v s')
  · exact absurd (h.symm.trans hend) (hfail e s')

end Frame

/-! ## All frames of a run -/

/-- `P` is kept by the frame that runs and `W` by the frames that wait for the result of a call. -/
structure FrameInvariant (c : Class) (P W : Frame → Prop) : Prop where
  enter : ∀ {name owner index method constants arguments},
    c.findMethod? name = some (.compiled owner index method constants) →
      method.paramCount.toNat = arguments.length → P (.enter method constants arguments)
  keep : ∀ {f g s s'}, P f → f.step c.name s = .continue g s' → P g
  call : ∀ {f g s s' name arguments}, P f → f.step c.name s = .call name arguments g s' → W g
  resume : ∀ {g} (v), W g → P (g.push v)

/-- `P` holds of the frame that runs and `W` of those that wait. -/
def Progress.AllFrames (P W : Frame → Prop) : Progress → Prop
  | .running e => P e.frame ∧ ∀ f ∈ e.callers, W f
  | .finished _ => True

namespace FrameInvariant

variable {c : Class} {P W : Frame → Prop} {frames : List Frame} {s : ScriptState} {p q : Progress}

theorem allFrames_resume (hinv : FrameInvariant c P W) (hframes : ∀ f ∈ frames, W f) (v : Value) :
    (Execution.resume frames s v).AllFrames P W := by
  cases frames with
  | nil => trivial
  | cons f callers =>
    rw [List.forall_mem_cons] at hframes
    exact ⟨hinv.resume v hframes.1, hframes.2⟩

theorem allFrames_call (hinv : FrameInvariant c P W) (hframes : ∀ f ∈ frames, W f) (name : String)
    (arguments : List Value) : (Execution.call c name arguments frames s).AllFrames P W := by
  rw [Execution.call.eq_def]
  split
  · trivial
  · split
    · exact hinv.allFrames_resume hframes _
    · trivial
  · next hfound =>
    split
    · trivial
    · next hcount =>
      split
      · trivial
      · exact ⟨hinv.enter hfound (Decidable.not_not.mp hcount), hframes⟩

theorem allFrames_step (hinv : FrameInvariant c P W) (h : p.AllFrames P W)
    (hstep : Progress.Step c p q) : q.AllFrames P W := by
  obtain ⟨e⟩ := hstep
  obtain ⟨hframe, hcallers⟩ := h
  rw [Execution.step]
  split
  · next heq => exact ⟨hinv.keep hframe heq, hcallers⟩
  · next heq =>
    exact hinv.allFrames_call (List.forall_mem_cons.mpr ⟨hinv.call hframe heq, hcallers⟩) _ _
  · exact hinv.allFrames_resume hcallers _
  · trivial

theorem allFrames_of_reaches (hinv : FrameInvariant c P W) (h : p.AllFrames P W)
    (hr : Progress.Reaches c p q) : q.AllFrames P W := by
  induction hr with
  | refl => exact h
  | tail _ hstep ih => exact hinv.allFrames_step ih hstep

/-- An invariant of frames holds of all frames of every state of a run. -/
theorem frames_of_reaches (hinv : FrameInvariant c P W) {name : String} {arguments : List Value}
    {e : Execution} (h : Progress.Reaches c (Execution.call c name arguments [] s) (.running e)) :
    P e.frame ∧ ∀ f ∈ e.callers, W f :=
  hinv.allFrames_of_reaches (hinv.allFrames_call (fun _ h ↦ absurd h List.not_mem_nil) _ _) h

end FrameInvariant

end BuildScript
