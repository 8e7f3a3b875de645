import Mathlib.Logic.Relation
import BuildScript.Machine.Execution

/-!
# Steps and runs

A run is a sequence of steps, `Reaches` says that one leads from one state to another. A run that
ends is found by `Execution.run` with enough fuel; `Survives c n p` says that `n` steps are not
enough, and a run that survives every `n` never ends.

`Reaches` and `Survives` are the two things a simulation proves about a piece of code: either the
machine gets to the state behind it, or it is busy with it for as long as one likes.
-/

namespace BuildScript

namespace Progress

/-- One step of a run of the class. A finished run takes no step. -/
inductive Step (c : Class) : Progress → Progress → Prop where
  | step (e : Execution) : Step c (.running e) (e.step c)

/-- Some number of steps leads from one state to the other. -/
abbrev Reaches (c : Class) : Progress → Progress → Prop := Relation.ReflTransGen (Step c)

/-- The run is not over after `n` steps. -/
def Survives (c : Class) (n : Nat) (p : Progress) : Prop := Execution.run c n p = none

end Progress

open Progress

variable {c : Class} {p q : Progress} {m n : Nat} {o : Outcome}

namespace Execution

@[simp] theorem run_finished : run c n (.finished o) = some o := by
  cases n <;> rfl

@[simp] theorem run_succ_running (e : Execution) :
    run c (n + 1) (.running e) = run c n (e.step c) := rfl

/-- More fuel keeps a finished answer. -/
theorem run_mono (h : run c m p = some o) (hmn : m ≤ n) : run c n p = some o := by
  induction m generalizing n p with
  | zero =>
    cases p with
    | running e => cases h
    | finished o' => rwa [run_finished] at h ⊢
  | succ m ih =>
    cases p with
    | running e =>
      obtain ⟨n, rfl⟩ : ∃ n', n = n' + 1 := ⟨n - 1, by omega⟩
      rw [run_succ_running] at h ⊢
      exact ih h (by omega)
    | finished o' => rwa [run_finished] at h ⊢

theorem run_unique {o' : Outcome} (h : run c m p = some o) (h' : run c n p = some o') : o = o' := by
  have hl := run_mono h (Nat.le_max_left m n)
  rw [run_mono h' (Nat.le_max_right m n)] at hl
  exact (Option.some.inj hl).symm

end Execution

namespace Progress

theorem Reaches.head {e : Execution} (h : Reaches c (e.step c) q) : Reaches c (.running e) q :=
  Relation.ReflTransGen.head (.step e) h

/-- A run goes on as from the state it has reached. -/
theorem Reaches.exists_run_add (h : Reaches c p q) :
    ∃ k, ∀ n, Execution.run c (n + k) p = Execution.run c n q := by
  induction h using Relation.ReflTransGen.head_induction_on with
  | refl => exact ⟨0, fun n ↦ rfl⟩
  | head hstep _ ih =>
    obtain ⟨e⟩ := hstep
    obtain ⟨k, hk⟩ := ih
    refine ⟨k + 1, fun n ↦ ?_⟩
    rw [← Nat.add_assoc, Execution.run_succ_running, hk]

theorem Reaches.exists_run (h : Reaches c p (.finished o)) : ∃ n, Execution.run c n p = some o := by
  obtain ⟨k, hk⟩ := h.exists_run_add
  exact ⟨0 + k, by rw [hk, Execution.run_finished]⟩

/-- The outcome of a run is that of its last step, unless the run was over before it began. -/
theorem eq_or_exists_last_of_run (h : Execution.run c n p = some o) :
    p = .finished o ∨ ∃ e, Reaches c p (.running e) ∧ e.step c = .finished o := by
  induction n generalizing p with
  | zero =>
    cases p with
    | running e => cases h
    | finished o' => exact .inl (congrArg finished (Option.some.inj h))
  | succ n ih =>
    cases p with
    | finished o' => exact .inl (congrArg finished (Option.some.inj h))
    | running e =>
      rcases ih h with hend | ⟨e', hreaches, hend⟩
      · exact .inr ⟨e, .refl, hend⟩
      · exact .inr ⟨e', .head hreaches, hend⟩

/-- A run that reaches a failing instruction fails with it. -/
theorem Reaches.exists_run_of_fail {e : Execution} {failure : Failure} {s : ScriptState}
    (h : Reaches c p (.running e)) (hfail : e.frame.step c.name e.state = .fail failure s) :
    ∃ n, Execution.run c n p = some ⟨.error failure, s⟩ := by
  have hend : e.step c = .finished ⟨.error failure, s⟩ := by
    rw [Execution.step, hfail]
  have hreaches : Reaches c p (e.step c) := h.tail (.step e)
  rw [hend] at hreaches
  exact hreaches.exists_run

theorem Survives.mono (h : Survives c n p) (hmn : m ≤ n) : Survives c m p := by
  rw [Survives, Option.eq_none_iff_forall_ne_some] at h ⊢
  intro o ho
  exact h o (Execution.run_mono ho hmn)

theorem survives_zero (e : Execution) : Survives c 0 (.running e) := rfl

theorem Survives.succ {e : Execution} (h : Survives c n (e.step c)) :
    Survives c (n + 1) (.running e) := h

theorem Reaches.survives (h : Reaches c p q) (hq : Survives c n q) : Survives c n p := by
  obtain ⟨k, hk⟩ := h.exists_run_add
  exact Survives.mono ((hk n).trans hq) (Nat.le_add_right n k)

end Progress

end BuildScript
