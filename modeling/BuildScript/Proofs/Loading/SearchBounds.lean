import BuildScript.Proofs.Loading.NewLoaders

/-!
# Searches without a bound

The bound of a search only cuts it off: a search that has ended finds the same with a larger bound.
So `World.Loads` can say what loading a class comes to without naming a bound. A search that fails
leaves the world as it is, however deep it went before, since classes are defined on the way back.
-/

namespace BuildScript

/-! ## Larger bounds -/

/-- Every outcome of the first search is one of the second. -/
def LoadM.Refines {α : Type} (search search' : LoadM α) : Prop :=
  ∀ w outcome, search w = some outcome → search' w = some outcome

open LoadM

theorem LoadM.Refines.own {n m : Nat} {id : LoaderId} {name : String}
    (h : Refines (findWithin n id name) (findWithin m id name)) :
    Refines (ownWithin n id name) (ownWithin m id name) := by
  intro w outcome hrun
  rw [ownWithin] at hrun ⊢
  split at hrun
  next => cases hrun
  all_goals
    next hfound =>
      rw [h w _ hfound]
      exact hrun

/-- A larger bound changes no search that has ended. -/
theorem refines_succ (n : Nat) :
    (∀ id name, Refines (loadWithin n id name) (loadWithin (n + 1) id name)) ∧
    (∀ id name, Refines (findWithin n id name) (findWithin (n + 1) id name)) ∧
    ∀ id file, Refines (linkWithin n id file) (linkWithin (n + 1) id file) := by
  induction n with
  | zero =>
    -- A search that may not begin has no outcome.
    refine ⟨fun id name w outcome h ↦ ?_, fun id name w outcome h ↦ ?_, fun id file w outcome h ↦ ?_⟩
    all_goals cases h
  | succ n ih =>
    obtain ⟨hload, hfind, hlink⟩ := ih
    have hown (id : LoaderId) (name : String) := (hfind id name).own
    refine ⟨fun id name w outcome hrun ↦ ?_, fun id name w outcome hrun ↦ ?_,
      fun id file w outcome hrun ↦ ?_⟩
    · rw [loadWithin_succ] at hrun ⊢
      cases hparent : (w.loader? id).bind (·.parent?) with
      | none =>
        rw [hparent] at hrun
        exact hown id name w outcome hrun
      | some parent =>
        rw [hparent, Option.elim_some] at hrun
        rw [Option.elim_some]
        split at hrun
        next hmissing =>
          rw [hload parent name w _ hmissing]
          exact hown id name _ outcome hrun
        next hother =>
          rw [hload parent name w outcome hrun]
          split
          next heq => exact (hother _ _ (hrun.trans heq)).elim
          next => rfl
    · rw [findWithin_succ] at hrun ⊢
      generalize w.loader? id = l at hrun ⊢
      rcases l with _ | classes | ⟨roots, parent, defined⟩ | ⟨delegate, filter⟩
      · exact hrun
      · exact hrun
      · dsimp only at hrun ⊢
        split at hrun
        next => exact hrun
        next =>
          split at hrun
          next => exact hrun
          next => exact hrun
          next file _ =>
            split at hrun
            next => cases hrun
            all_goals
              next hlinked =>
                rw [hlink id file w _ hlinked]
                exact hrun
      · dsimp only at hrun ⊢
        by_cases hallowed : filter.allows name = true
        · rw [if_pos hallowed] at hrun ⊢
          rcases hdelegate : loadWithin n delegate name w with _ | outcome'
          · rw [hdelegate] at hrun
            cases hrun
          · rw [hdelegate] at hrun
            rw [hload delegate name w outcome' hdelegate]
            exact hrun
        · rw [if_neg hallowed] at hrun ⊢
          exact hrun
    · rw [linkWithin_succ] at hrun ⊢
      split at hrun
      next => exact hrun
      next superName _ =>
        split at hrun
        next => cases hrun
        all_goals
          next hsuper =>
            rw [hload id superName w _ hsuper]
            exact hrun

/-! ## Failing searches -/

/-- A search that fails leaves the world as it is. -/
theorem eq_of_search_error (n : Nat) :
    (∀ id name e w w', loadWithin n id name w = some (.error e, w') → w' = w) ∧
    (∀ id name e w w', findWithin n id name w = some (.error e, w') → w' = w) ∧
    ∀ id file e w w', linkWithin n id file w = some (.error e, w') → w' = w := by
  induction n with
  | zero =>
    refine ⟨fun id name e w w' h ↦ ?_, fun id name e w w' h ↦ ?_, fun id file e w w' h ↦ ?_⟩
    all_goals cases h
  | succ n ih =>
    obtain ⟨hload, hfind, hlink⟩ := ih
    have hown {id name e w w'} (h : ownWithin n id name w = some (.error e, w')) : w' = w := by
      obtain ⟨e' | _ | c, hrun, hr⟩ := own_cases h
      · exact hfind _ _ _ _ _ hrun
      · exact (unchanged_of_search n).2.1 _ _ _ _ hrun
      · cases hr
    refine ⟨fun id name e w w' h ↦ ?_, fun id name e w w' h ↦ ?_, fun id file e w w' h ↦ ?_⟩
    · rcases load_cases h with ⟨p, -, hrun, -⟩ | ⟨-, hrun⟩ | ⟨p, _, w₁, -, hmissing, hrun⟩
      · exact hload _ _ _ _ _ hrun
      · exact hown hrun
      · exact (hown hrun).trans (hload _ _ _ _ _ hmissing)
    · rcases find_cases h with ⟨rfl, -⟩ | ⟨_, _, r, -, hrun, hr⟩ | ⟨_, _, _, _, r, -, -, hrun, hr⟩
      · rfl
      · rcases r with e' | c
        · exact hload _ _ _ _ _ hrun
        · cases hr
      · rcases r with e' | c
        · exact hlink _ _ _ _ _ hrun
        · cases hr
    · rcases link_cases h with ⟨_, _, hr, -, -⟩ | ⟨_, _, -, hrun⟩
      · cases hr
      · exact hload _ _ _ _ _ hrun

/-! ## Loading without a bound -/

theorem loadWithin_mono {n m : Nat} (h : n ≤ m) {id : LoaderId} {name : String} :
    Refines (loadWithin n id name) (loadWithin m id name) := by
  induction h with
  | refl => exact fun _ _ hrun ↦ hrun
  | step _ ih => exact fun w outcome hrun ↦ (refines_succ _).1 id name w outcome (ih w outcome hrun)

theorem ownWithin_mono {n m : Nat} (h : n ≤ m) {id : LoaderId} {name : String} :
    Refines (ownWithin n id name) (ownWithin m id name) := by
  induction h with
  | refl => exact fun _ _ hrun ↦ hrun
  | step _ ih =>
    exact fun w outcome hrun ↦ ((refines_succ _).2.1 id name).own w outcome (ih w outcome hrun)

theorem isSome_of_le {n m : Nat} (h : n ≤ m) {id : LoaderId} {name : String} {w : World}
    (hrun : (loadWithin n id name w).isSome) : (loadWithin m id name w).isSome := by
  obtain ⟨outcome, hrun⟩ := Option.isSome_iff_exists.mp hrun
  exact Option.isSome_iff_exists.mpr ⟨outcome, loadWithin_mono h w outcome hrun⟩

namespace World

variable {w : World} {id : LoaderId} {name : String}

/-- Loading the class ends, with this outcome and this world. -/
def Loads (w : World) (id : LoaderId) (name : String) (outcome : Except LoadError Class × World) :
    Prop :=
  ∃ n, loadWithin n id name w = some outcome

/-- Loading the class ends in one way or another. -/
def Ends (w : World) (id : LoaderId) (name : String) : Prop := ∃ outcome, w.Loads id name outcome

theorem Loads.unique {outcome outcome' : Except LoadError Class × World}
    (h : w.Loads id name outcome) (h' : w.Loads id name outcome') : outcome = outcome' := by
  obtain ⟨n, hn⟩ := h
  obtain ⟨m, hm⟩ := h'
  have hn' := loadWithin_mono (Nat.le_max_left n m) w _ hn
  have hm' := loadWithin_mono (Nat.le_max_right n m) w _ hm
  exact Option.some.inj (hn'.symm.trans hm')

theorem ends_iff : w.Ends id name ↔ ∃ n, (loadWithin n id name w).isSome := by
  simp only [Ends, Loads, Option.isSome_iff_exists]
  exact exists_comm

/-- The loader of the platform ends at once. -/
theorem loads_system {classes : List (String × Class)}
    (h : w.loader? id = some (.system classes)) (name : String) :
    w.Loads id name ((classes.lookup name).elim (.error (.classNotFound name)) .ok, w) := by
  refine ⟨2, ?_⟩
  rw [loadWithin_succ, h, Option.bind_some, Loader.parent?, Option.elim_none, ownWithin,
    findWithin_succ, h]
  dsimp only
  cases classes.lookup name <;> rfl

end World

end BuildScript
