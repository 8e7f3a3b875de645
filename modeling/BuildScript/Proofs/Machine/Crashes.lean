import BuildScript.Proofs.Machine.IntegerArithmetic
import BuildScript.Proofs.Machine.Steps

/-!
# Runs that crash

The machine gives up in one situation only: a frame stands at a division with the least integer and
minus one on its stack. `crashed_iff` says so of the runs of any class, whatever its code is. Every
other run that ends has a value or an error that the script's caller is told.

Natives report errors of the machine but cannot make it give up, by their type.
-/

namespace BuildScript

namespace Frame

/-- The frame stands at the division of the least integer by minus one. -/
def DividesLeast (f : Frame) : Prop :=
  Instr.at? f.method.code f.offset = some (.ok (.arithmetic .divide)) ∧
    ∃ stack, f.stack = .int (-1) :: .int Int64.minValue :: stack

variable {f : Frame} {s s' : ScriptState} {className : String}

/-! ## Instructions -/

theorem exists_of_withTop_crash {k : Value → Frame → Effect}
    (h : f.withTop s k = .fail .crash s') :
    ∃ v stack, f.stack = v :: stack ∧ k v { f with stack } = .fail .crash s' := by
  rw [withTop] at h
  split at h
  · next v stack hstack => exact ⟨v, stack, hstack, h⟩
  · cases h

theorem exists_of_withTops_crash {n : Nat} {k : List Value → Frame → Effect}
    (h : f.withTops s n k = .fail .crash s') :
    ∃ tops g, k tops g = .fail .crash s' := by
  rw [withTops] at h
  split at h
  · exact ⟨_, _, h⟩
  · cases h

theorem exists_of_withString_crash {index : UInt32} {k : String → Effect}
    (h : f.withString s index k = .fail .crash s') : ∃ name, k name = .fail .crash s' := by
  rw [withString] at h
  split at h
  · exact ⟨_, h⟩
  · cases h

theorem eq_crash_of_pushResult {r : Except Failure Value}
    (h : f.pushResult s r = .fail .crash s') : r = .error .crash := by
  cases r with
  | ok v => cases h
  | error e =>
    cases h
    rfl

theorem mapError_ne_crash (r : Except RunError Value) :
    r.mapError Failure.error ≠ .error .crash := by
  cases r <;> exact nofun

theorem jump_ne_crash (target : Int) : f.jump s target ≠ .fail .crash s' := by
  rw [jump]
  split <;> exact nofun

/-- Of all instructions only a division crashes. -/
theorem exists_of_execute_crash {i : Instr}
    (h : f.execute className s i = .fail .crash s') :
    i = .arithmetic .divide ∧ ∃ stack, f.stack = .int (-1) :: .int Int64.minValue :: stack := by
  cases i with
  | nop | pushNull | pushTrue | pushFalse | returnNull => cases h
  | pushInt | pushFloat =>
    rw [execute, pushConstant.eq_def] at h
    split at h <;> cases h
  | pushStr | pushClass =>
    rw [execute] at h
    obtain ⟨name, h⟩ := exists_of_withString_crash h
    cases h
  | loadLocal slot =>
    rw [execute] at h
    split at h <;> cases h
  | pop | dup | not | «return» =>
    rw [execute] at h
    obtain ⟨v, stack, -, h⟩ := exists_of_withTop_crash h
    cases h
  | storeLocal slot =>
    rw [execute] at h
    obtain ⟨v, stack, -, h⟩ := exists_of_withTop_crash h
    split at h <;> cases h
  | loadVar index =>
    rw [execute] at h
    obtain ⟨name, h⟩ := exists_of_withString_crash h
    split at h <;> cases h
  | storeVar index =>
    rw [execute] at h
    obtain ⟨name, h⟩ := exists_of_withString_crash h
    obtain ⟨v, stack, -, h⟩ := exists_of_withTop_crash h
    cases h
  | getProperty index =>
    rw [execute] at h
    obtain ⟨name, h⟩ := exists_of_withString_crash h
    obtain ⟨v, stack, -, h⟩ := exists_of_withTop_crash h
    exact absurd (eq_crash_of_pushResult h) (mapError_ne_crash _)
  | arithmetic op =>
    rw [execute] at h
    obtain ⟨right, stack, hright, h⟩ := exists_of_withTop_crash h
    obtain ⟨left, rest, hleft, h⟩ := exists_of_withTop_crash h
    obtain ⟨rfl, rfl, rfl⟩ := Value.combine_eq_crash_iff.mp (eq_crash_of_pushResult h)
    obtain rfl : stack = _ := hleft
    exact ⟨rfl, rest, hright⟩
  | negate =>
    rw [execute] at h
    obtain ⟨v, stack, -, h⟩ := exists_of_withTop_crash h
    exact absurd (eq_crash_of_pushResult h) (Value.negate_ne_crash v)
  | compare op =>
    rw [execute] at h
    obtain ⟨right, stack, -, h⟩ := exists_of_withTop_crash h
    obtain ⟨left, rest, -, h⟩ := exists_of_withTop_crash h
    exact absurd (eq_crash_of_pushResult h) (Value.compareBy_ne_crash op left right)
  | jump kind distance =>
    cases kind with
    | always => exact absurd h (jump_ne_crash _)
    | ifFalse | ifTrue =>
      rw [execute] at h
      obtain ⟨v, stack, -, h⟩ := exists_of_withTop_crash h
      split at h
      all_goals first
        | exact absurd h (jump_ne_crash _)
        | cases h
  | invokeMethod index count =>
    rw [execute] at h
    obtain ⟨name, h⟩ := exists_of_withString_crash h
    obtain ⟨tops, g, h⟩ := exists_of_withTops_crash h
    cases h
  | invokeVirtual index count =>
    rw [execute] at h
    obtain ⟨name, h⟩ := exists_of_withString_crash h
    obtain ⟨tops, g, h⟩ := exists_of_withTops_crash h
    obtain ⟨receiver, stack, -, h⟩ := exists_of_withTop_crash h
    exact absurd (eq_crash_of_pushResult h) (mapError_ne_crash _)
  | newList count =>
    rw [execute] at h
    obtain ⟨tops, g, h⟩ := exists_of_withTops_crash h
    cases h

theorem executeCut_ne_crash {op : Opcode} {present : List UInt8} :
    f.executeCut s op present ≠ .fail .crash s' := by
  intro h
  rw [executeCut] at h
  split at h
  · split at h
    · obtain ⟨name, h⟩ := exists_of_withString_crash h
      cases h
    · cases h
  · cases h

theorem step_eq_crash_iff :
    (∃ s', f.step className s = .fail .crash s') ↔ f.DividesLeast := by
  constructor
  · rintro ⟨s', h⟩
    rw [step] at h
    split at h
    · cases h
    · cases h
    · exact absurd h executeCut_ne_crash
    · next hat =>
      obtain ⟨rfl, hstack⟩ := exists_of_execute_crash h
      exact ⟨hat, hstack⟩
  · rintro ⟨hat, stack, hstack⟩
    refine ⟨s, ?_⟩
    rw [step, hat]
    simp only [execute, withTop, hstack]
    rw [Value.combine_eq_crash_iff.mpr ⟨rfl, rfl, rfl⟩]
    rfl

end Frame

/-! ## Runs -/

namespace Outcome

/-- The machine has given up. -/
def Crashed (o : Outcome) : Prop := o.result = .error .crash

instance : DecidablePred Crashed
  | ⟨.ok _, _⟩ => .isFalse nofun
  | ⟨.error (.error _), _⟩ => .isFalse nofun
  | ⟨.error .crash, _⟩ => .isTrue rfl

/-- The run has ended with a value or an error that its caller is told. -/
def Answers (o : Outcome) : Prop :=
  (∃ v, o.result = .ok v) ∨ ∃ err, o.result = .error (.error err)

theorem answers_iff_not_crashed {o : Outcome} : o.Answers ↔ ¬o.Crashed := by
  obtain ⟨result, s⟩ := o
  match result with
  | .ok v => exact iff_of_true (.inl ⟨v, rfl⟩) nofun
  | .error (.error err) => exact iff_of_true (.inr ⟨err, rfl⟩) nofun
  | .error .crash => exact iff_of_false nofun (not_not_intro rfl)

end Outcome

namespace Execution

variable {c : Class} {name : String} {arguments : List Value} {frames : List Frame}
  {s : ScriptState} {e : Execution} {o : Outcome}

theorem not_crashed_of_resume {v : Value} (h : resume frames s v = .finished o) : ¬o.Crashed := by
  cases frames with
  | nil =>
    cases h
    exact nofun
  | cons f callers => cases h

theorem not_crashed_of_call (h : call c name arguments frames s = .finished o) : ¬o.Crashed := by
  rw [call.eq_def] at h
  split at h
  · cases h
    exact nofun
  · split at h
    · exact not_crashed_of_resume h
    · cases h
      exact nofun
  · split at h
    · cases h
      exact nofun
    · split at h
      · cases h
        exact nofun
      · cases h

/-- A step that ends a run with a crash is a division. -/
theorem dividesLeast_of_step (h : e.step c = .finished o) (ho : o.Crashed) :
    e.frame.DividesLeast := by
  rw [step] at h
  split at h
  · cases h
  · exact absurd ho (not_crashed_of_call h)
  · exact absurd ho (not_crashed_of_resume h)
  · next failure s' hstep =>
    cases h
    cases ho
    exact Frame.step_eq_crash_iff.mp ⟨s', hstep⟩

theorem crashed_iff {fuel : Nat} (h : run c fuel (call c name arguments [] s) = some o) :
    o.Crashed ↔ ∃ e, Progress.Reaches c (call c name arguments [] s) (.running e) ∧
      e.frame.DividesLeast := by
  constructor
  · intro ho
    rcases Progress.eq_or_exists_last_of_run h with hend | ⟨e, hreaches, hend⟩
    · exact absurd ho (not_crashed_of_call hend)
    · exact ⟨e, hreaches, dividesLeast_of_step hend ho⟩
  · rintro ⟨e, hreaches, hdivides⟩
    obtain ⟨s', hstep⟩ := Frame.step_eq_crash_iff.mpr hdivides
    obtain ⟨n, hrun⟩ := hreaches.exists_run_of_fail hstep
    rw [run_unique h hrun]
    rfl

/-- A run that ends has an answer, unless it comes to the division of the least integer by minus
one. -/
theorem answers_iff {fuel : Nat} (h : run c fuel (call c name arguments [] s) = some o) :
    o.Answers ↔ ¬∃ e, Progress.Reaches c (call c name arguments [] s) (.running e) ∧
      e.frame.DividesLeast := by
  rw [Outcome.answers_iff_not_crashed, crashed_iff h]

end Execution

end BuildScript
