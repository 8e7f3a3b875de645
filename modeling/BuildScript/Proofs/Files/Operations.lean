import Mathlib.Logic.Relation

/-!
# Operations with a state

An operation that may fail can change its state whether it fails or not. `run_bind_ok` and its
neighbours execute an operation one step at a time. An operation `Moves` along a relation if every
run of it is a sequence of steps of the relation, however the run ends. This is closed under all ways
of putting operations together, so what an operation can do follows from what its parts can do, and
an invariant of the steps is one of every run.
-/

namespace BuildScript

open Relation

variable {ε σ α β : Type}

/-! ## Runs -/

section Runs

variable {op : ExceptT ε (StateM σ) α} {f : α → ExceptT ε (StateM σ) β}
  {handler : ε → ExceptT ε (StateM σ) α} {s s' : σ} {a : α} {e : ε}

theorem run_pure (a : α) (s : σ) : (pure a : ExceptT ε (StateM σ) α).run s = (.ok a, s) := rfl

theorem run_get (s : σ) : (get : ExceptT ε (StateM σ) σ).run s = (.ok s, s) := rfl

theorem run_set (s s' : σ) : (set s' : ExceptT ε (StateM σ) PUnit).run s = (.ok ⟨⟩, s') := rfl

theorem run_modify (f : σ → σ) (s : σ) :
    (modify f : ExceptT ε (StateM σ) PUnit).run s = (.ok ⟨⟩, f s) := rfl

theorem run_lift (x : Except ε α) (s : σ) :
    (liftM x : ExceptT ε (StateM σ) α).run s = (x, s) := rfl

section

variable {δ : Type} {x : Except δ α} {cause : δ}

/-! A result whose error, if it is one, is wrapped. -/

theorem run_ofExcept_ok (h : x = .ok a) (wrap : δ → ε) (s : σ) :
    (ofExcept (x.mapError wrap) : ExceptT ε (StateM σ) α).run s = (.ok a, s) := by
  rw [h]
  rfl

theorem run_ofExcept_error (h : x = .error cause) (wrap : δ → ε) (s : σ) :
    (ofExcept (x.mapError wrap) : ExceptT ε (StateM σ) α).run s = (.error (wrap cause), s) := by
  rw [h]
  rfl

end

theorem run_bind (op : ExceptT ε (StateM σ) α) (f : α → ExceptT ε (StateM σ) β) (s : σ) :
    (op >>= f).run s =
      match op.run s with
      | (.ok a, s') => (f a).run s'
      | (.error e, s') => (.error e, s') := by
  change (ExceptT.bindCont f (op.run s).1 (op.run s).2 : Id _) = _
  rcases op.run s with ⟨_ | _, _⟩ <;> rfl

theorem run_bind_ok (h : op.run s = (.ok a, s')) : (op >>= f).run s = (f a).run s' := by
  rw [run_bind, h]

theorem run_bind_error (h : op.run s = (.error e, s')) : (op >>= f).run s = (.error e, s') := by
  rw [run_bind, h]

theorem run_tryCatch (op : ExceptT ε (StateM σ) α) (handler : ε → ExceptT ε (StateM σ) α) (s : σ) :
    (tryCatch op handler).run s =
      match op.run s with
      | (.ok a, s') => (.ok a, s')
      | (.error e, s') => (handler e).run s' := by
  change ((match (op.run s).1 with
    | .ok a => Pure.pure (.ok a)
    | .error e => handler e : StateM σ (Except ε α)) (op.run s).2 : Id _) = _
  rcases op.run s with ⟨_ | _, _⟩ <;> rfl

theorem run_tryCatch_ok (h : op.run s = (.ok a, s')) :
    (tryCatch op handler).run s = (.ok a, s') := by
  rw [run_tryCatch, h]

theorem run_tryCatch_error (h : op.run s = (.error e, s')) :
    (tryCatch op handler).run s = (handler e).run s' := by
  rw [run_tryCatch, h]

/-- A sequence that succeeds is made of parts that succeed. -/
theorem run_bind_eq_ok {b : β} (h : (op >>= f).run s = (.ok b, s')) :
    ∃ a s₁, op.run s = (.ok a, s₁) ∧ (f a).run s₁ = (.ok b, s') := by
  rw [run_bind] at h
  split at h
  next a s₁ hop => exact ⟨a, s₁, hop, h⟩
  next => cases h

end Runs

/-! ## Moves -/

/-- Every run is a sequence of steps of the relation. -/
def Moves (R : σ → σ → Prop) (op : ExceptT ε (StateM σ) α) : Prop :=
  ∀ s, ReflTransGen R s (op.run s).2

namespace Moves

variable {R R' : σ → σ → Prop} {op : ExceptT ε (StateM σ) α}

theorem mono (h : Moves R op) (hR : ∀ s s', R s s' → R' s s') : Moves R' op :=
  fun s ↦ ReflTransGen.mono hR _ _ (h s)

theorem pure (a : α) : Moves R (pure a : ExceptT ε (StateM σ) α) := fun _ ↦ .refl

theorem throw (e : ε) : Moves R (throw e : ExceptT ε (StateM σ) α) := fun _ ↦ .refl

theorem bind {f : α → ExceptT ε (StateM σ) β} (h : Moves R op) (hf : ∀ a, Moves R (f a)) :
    Moves R (op >>= f) := by
  intro s
  have hop := h s
  rw [run_bind]
  split
  next a s' heq =>
    rw [heq] at hop
    exact hop.trans (hf a s')
  next e s' heq =>
    rw [heq] at hop
    exact hop

theorem tryCatch {handler : ε → ExceptT ε (StateM σ) α} (h : Moves R op)
    (hhandler : ∀ e, Moves R (handler e)) : Moves R (tryCatch op handler) := by
  intro s
  have hop := h s
  rw [run_tryCatch]
  split
  next a s' heq =>
    rw [heq] at hop
    exact hop
  next e s' heq =>
    rw [heq] at hop
    exact hop.trans (hhandler e s')

/-- A loop over a list moves as its body does for the elements of the list. -/
theorem forIn {l : List β} {init : α} {body : β → α → ExceptT ε (StateM σ) (ForInStep α)}
    (h : ∀ x ∈ l, ∀ a, Moves R (body x a)) : Moves R (forIn l init body) := by
  induction l generalizing init with
  | nil => exact pure init
  | cons x l ih =>
    rw [List.forIn_cons]
    refine bind (h x List.mem_cons_self init) fun step ↦ ?_
    cases step with
    | done a => exact pure a
    | yield a => exact ih fun y hy ↦ h y (List.mem_cons_of_mem x hy)

end Moves

/-- What each step of a relation keeps is kept by a sequence of steps. -/
theorem keeps_of_steps {R : σ → σ → Prop} {P : σ → Prop} (hstep : ∀ s s', R s s' → P s → P s')
    {s s' : σ} (h : ReflTransGen R s s') (hs : P s) : P s' := by
  induction h with
  | refl => exact hs
  | tail _ hlast ih => exact hstep _ _ hlast ih

end BuildScript
