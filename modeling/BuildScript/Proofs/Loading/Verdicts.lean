import BuildScript.Proofs.Loading.DefinedClasses

/-!
# Loading changes no answers

Loading a class may define classes, and with them the world changes; but it changes no answer. What
loading a name comes to, a class, no class or another error, is the same before and after any other
classes were loaded, in this or in any other loader, as long as the files and the loaders stay.

The reason is that a search needs only the world in which it began: a loader looks for a class of
its own only if its parent has failed, and a search that fails has changed nothing. So the `Verdict`
of a search follows equations in which no other world occurs, and two worlds are compared without
running them side by side. They are `Alike` if their loaders differ at most in classes that one of
them has defined and the other would find.
-/

namespace BuildScript

open Relation

/-- What loading a class comes to, but for the class and the error. -/
inductive Verdict where
  | found | missing | broken
deriving DecidableEq, Repr

namespace Verdict

def ofLoad : Except LoadError Class → Verdict
  | .ok _ => found
  | .error (.classNotFound _) => missing
  | .error _ => broken

theorem ofLoad_eq_found_iff {r : Except LoadError Class} : ofLoad r = found ↔ ∃ c, r = .ok c := by
  rcases r with e | c
  · cases e <;> simp [ofLoad]
  · simp [ofLoad]

/-- A class that cannot have its superclass is broken, whatever is wrong with the superclass. -/
def needed : Verdict → Verdict
  | found => found
  | missing | broken => broken

end Verdict

/-- The verdict of a search, if it ends. -/
def LoadM.verdict (search : LoadM Class) (w : World) : Option Verdict :=
  (search w).map fun outcome ↦ .ofLoad outcome.1

/-- What a loader does when its parent has not found a class. -/
inductive Loader.Next where
  | done (verdict : Verdict)
  | ask (delegate : LoaderId)
  | link (file : ClassFile)

/-- The next step of a loader, if there is one of that number. -/
def Loader.next (files : FileTree) (name : String) : Option Loader → Next
  | none => .done .missing
  | some (.system classes) => .done (if (classes.lookup name).isSome then .found else .missing)
  | some (.filtering delegate filter) =>
    if filter.allows name then .ask delegate else .done .missing
  | some (.classPath roots _ defined) =>
    if (defined.lookup name).isSome then .done .found
    else
      match readClassFile files name roots with
      | .error _ => .done .broken
      | .ok none => .done .missing
      | .ok (some file) => .link file

/-! ## Verdicts need one world only -/

section Equations

open LoadM

variable (n : Nat) (id : LoaderId) (name : String) (file : ClassFile) (w : World)

theorem verdict_load_succ : verdict (loadWithin (n + 1) id name) w =
    ((w.loader? id).bind (·.parent?)).elim (verdict (ownWithin n id name) w) fun parent ↦
      match verdict (loadWithin n parent name) w with
      | some .missing => verdict (ownWithin n id name) w
      | outcome => outcome := by
  rw [verdict, loadWithin_succ]
  cases (w.loader? id).bind (·.parent?) with
  | none => rfl
  | some parent =>
    rw [Option.elim_some, Option.elim_some]
    rcases hload : loadWithin n parent name w with _ | ⟨e | c, w'⟩
    · simp [verdict, hload]
    · cases e with
      | classNotFound other =>
        obtain ⟨-, rfl⟩ := (unchanged_of_search n).1 _ _ _ _ _ hload
        simp [verdict, hload, Verdict.ofLoad]
      | _ => simp [verdict, hload, Verdict.ofLoad]
    · simp [verdict, hload, Verdict.ofLoad]

theorem verdict_own_succ : verdict (ownWithin (n + 1) id name) w =
    match Loader.next w.files name (w.loader? id) with
    | .done v => some v
    | .ask delegate => verdict (loadWithin n delegate name) w
    | .link file => verdict (linkWithin n id file) w := by
  rw [verdict, ownWithin, findWithin_succ]
  rcases w.loader? id with _ | classes | ⟨roots, parent, defined⟩ | ⟨delegate, filter⟩
  · rfl
  · rw [Loader.next]
    dsimp only
    cases classes.lookup name <;> rfl
  · rw [Loader.next]
    dsimp only
    rcases defined.lookup name with _ | c
    · dsimp only
      rw [Option.isSome_none, if_neg Bool.false_ne_true]
      rcases hread : readClassFile w.files name roots with e | _ | file
      · dsimp only
        cases e with
        | classNotFound other => exact (readClassFile_ne_classNotFound _ _ _ _ hread).elim
        | _ => rfl
      · rfl
      · dsimp only [verdict]
        rcases linkWithin n id file w with _ | ⟨e | c, w'⟩ <;> rfl
    · rfl
  · rw [Loader.next]
    by_cases hallowed : filter.allows name = true
    · rw [if_pos hallowed]
      dsimp only [verdict]
      rw [if_pos hallowed]
      rcases loadWithin n delegate name w with _ | ⟨e | c, w'⟩
      · rfl
      · cases e <;> rfl
      · rfl
    · rw [if_neg hallowed]
      dsimp only
      rw [if_neg hallowed]
      rfl

theorem verdict_link_succ : verdict (linkWithin (n + 1) id file) w =
    file.superName.elim (some .found) fun superName ↦
      (verdict (loadWithin n id superName) w).map Verdict.needed := by
  rw [verdict, linkWithin_succ]
  cases file.superName with
  | none => rfl
  | some superName =>
    rw [Option.elim_some]
    dsimp only [verdict]
    rcases loadWithin n id superName w with _ | ⟨e | c, w'⟩
    · rfl
    · cases e <;> rfl
    · rfl

end Equations

theorem LoadM.Refines.verdict {search search' : LoadM Class} (h : LoadM.Refines search search')
    {w : World} {v : Verdict} (hv : search.verdict w = some v) : search'.verdict w = some v := by
  obtain ⟨outcome, hrun, rfl⟩ := Option.map_eq_some_iff.mp hv
  rw [LoadM.verdict, h w outcome hrun, Option.map_some]

/-! ## Alike worlds -/

namespace World

variable {w w' : World} {id : LoaderId} {name : String} {v : Verdict}

/-- The loader has a class of the name, or makes one, if its parent has none. -/
def Owns (w : World) (id : LoaderId) (name : String) : Prop :=
  ∃ n, (ownWithin n id name).verdict w = some .found

/-- The worlds have the same files and the same loaders, but for classes that a loader has defined
in one of them and that it has or makes in the other. -/
structure Alike (w w' : World) : Prop where
  files_eq : w'.files = w.files
  loader : ∀ id, w'.loader? id = w.loader? id ∨ ∃ roots parent defined defined',
    w.loader? id = some (.classPath roots parent defined) ∧
      w'.loader? id = some (.classPath roots parent defined') ∧
        ∀ name, ((defined.lookup name).isSome → w'.Owns id name) ∧
          ((defined'.lookup name).isSome → w.Owns id name)

theorem Alike.refl (w : World) : w.Alike w := ⟨rfl, fun _ ↦ .inl rfl⟩

theorem Alike.symm (h : w.Alike w') : w'.Alike w where
  files_eq := h.files_eq.symm
  loader id := by
    rcases h.loader id with heq | ⟨roots, parent, defined, defined', hw, hw', hlookup⟩
    · exact .inl heq.symm
    · exact .inr ⟨roots, parent, defined', defined, hw', hw, fun name ↦ (hlookup name).symm⟩

theorem Alike.parent_eq (h : w.Alike w') (id : LoaderId) :
    (w'.loader? id).bind (·.parent?) = (w.loader? id).bind (·.parent?) := by
  rcases h.loader id with heq | ⟨roots, parent, defined, defined', hw, hw', -⟩
  · rw [heq]
  · rw [hw, hw']
    rfl

theorem Owns.eq_found (h : w.Owns id name) {n : Nat}
    (hv : (ownWithin n id name).verdict w = some v) : v = .found := by
  obtain ⟨m, hm⟩ := h
  have hm' := (ownWithin_mono (Nat.le_max_left m n)).verdict hm
  have hv' := (ownWithin_mono (Nat.le_max_right m n)).verdict hv
  exact Option.some.inj (hv'.symm.trans hm')

/-- A class that was defined is found at once. -/
theorem verdict_own_of_lookup {roots : List Path} {parent : Option LoaderId}
    {defined : List (String × Class)}
    (hloader : w.loader? id = some (.classPath roots parent defined))
    (hlookup : (defined.lookup name).isSome) (n : Nat) :
    (ownWithin (n + 1) id name).verdict w = some .found := by
  rw [verdict_own_succ, hloader, Loader.next, if_pos hlookup]

/-- Searches within the bound that end in the first world end alike in the second, perhaps within
another bound. -/
structure EndsAlike (n : Nat) (w w' : World) : Prop where
  load : ∀ {id name v}, (loadWithin n id name).verdict w = some v →
    ∃ m, (loadWithin m id name).verdict w' = some v
  own : ∀ {id name v}, (ownWithin n id name).verdict w = some v →
    ∃ m, (ownWithin m id name).verdict w' = some v
  link : ∀ {id file v}, (linkWithin n id file).verdict w = some v →
    ∃ m, (linkWithin m id file).verdict w' = some v

namespace EndsAlike

variable {n : Nat} {file : ClassFile}

theorem load_succ (h : EndsAlike n w w') (halike : w.Alike w')
    (hv : (loadWithin (n + 1) id name).verdict w = some v) :
    ∃ m, (loadWithin m id name).verdict w' = some v := by
  rw [verdict_load_succ] at hv
  cases hparent : (w.loader? id).bind (·.parent?) with
  | none =>
    rw [hparent] at hv
    obtain ⟨m, hm⟩ := h.own hv
    refine ⟨m + 1, ?_⟩
    rw [verdict_load_succ, halike.parent_eq, hparent]
    exact hm
  | some p =>
    rw [hparent, Option.elim_some] at hv
    split at hv
    next hmissing =>
      obtain ⟨k, hk⟩ := h.load hmissing
      obtain ⟨m, hm⟩ := h.own hv
      refine ⟨max k m + 1, ?_⟩
      rw [verdict_load_succ, halike.parent_eq, hparent, Option.elim_some,
        (loadWithin_mono (Nat.le_max_left k m)).verdict hk]
      exact (ownWithin_mono (Nat.le_max_right k m)).verdict hm
    next hother =>
      obtain ⟨m, hm⟩ := h.load hv
      refine ⟨m + 1, ?_⟩
      rw [verdict_load_succ, halike.parent_eq, hparent, Option.elim_some, hm]
      cases v with
      | missing => exact (hother hv).elim
      | found | broken => rfl

/-- Loaders that go on alike end alike. -/
theorem own_of_next (h : EndsAlike n w w')
    (hnext : Loader.next w'.files name (w'.loader? id) = Loader.next w.files name (w.loader? id))
    (hv : (ownWithin (n + 1) id name).verdict w = some v) :
    ∃ m, (ownWithin m id name).verdict w' = some v := by
  rw [verdict_own_succ, ← hnext] at hv
  suffices hsearched : ∃ m, (match Loader.next w'.files name (w'.loader? id) with
      | .done v' => some v'
      | .ask delegate => (loadWithin m delegate name).verdict w'
      | .link file => (linkWithin m id file).verdict w') = some v by
    obtain ⟨m, hm⟩ := hsearched
    exact ⟨m + 1, (verdict_own_succ m id name w').trans hm⟩
  generalize Loader.next w'.files name (w'.loader? id) = next at hv ⊢
  cases next with
  | done v' => exact ⟨0, hv⟩
  | ask delegate => exact h.load hv
  | link file => exact h.link hv

theorem own_succ (h : EndsAlike n w w') (halike : w.Alike w')
    (hv : (ownWithin (n + 1) id name).verdict w = some v) :
    ∃ m, (ownWithin m id name).verdict w' = some v := by
  rcases halike.loader id with heq | ⟨roots, parent, defined, defined', hw, hw', hlookup⟩
  · exact h.own_of_next (by rw [heq, halike.files_eq]) hv
  · by_cases hdefined : (defined.lookup name).isSome
    · rw [verdict_own_of_lookup hw hdefined] at hv
      cases hv
      exact (hlookup name).1 hdefined
    · by_cases hdefined' : (defined'.lookup name).isSome
      · obtain rfl := ((hlookup name).2 hdefined').eq_found hv
        exact ⟨1, verdict_own_of_lookup hw' hdefined' 0⟩
      · refine h.own_of_next ?_ hv
        rw [hw, hw', Loader.next, Loader.next, if_neg hdefined, if_neg hdefined', halike.files_eq]

theorem link_succ (h : EndsAlike n w w') (hv : (linkWithin (n + 1) id file).verdict w = some v) :
    ∃ m, (linkWithin m id file).verdict w' = some v := by
  rw [verdict_link_succ] at hv
  cases hsuper : file.superName with
  | none =>
    rw [hsuper] at hv
    refine ⟨1, ?_⟩
    rw [verdict_link_succ, hsuper]
    exact hv
  | some superName =>
    rw [hsuper, Option.elim_some] at hv
    obtain ⟨v', hv', rfl⟩ := Option.map_eq_some_iff.mp hv
    obtain ⟨m, hm⟩ := h.load hv'
    refine ⟨m + 1, ?_⟩
    rw [verdict_link_succ, hsuper, Option.elim_some, hm, Option.map_some]

end EndsAlike

/-- What a search ends with in one world, one ends with in the other. -/
theorem Alike.endsAlike (h : w.Alike w') (n : Nat) : EndsAlike n w w' := by
  induction n with
  | zero =>
    refine ⟨fun hv ↦ ?_, fun hv ↦ ?_, fun hv ↦ ?_⟩
    all_goals cases hv
  | succ n ih => exact ⟨ih.load_succ h, ih.own_succ h, ih.link_succ⟩

theorem Owns.of_alike (h : w.Owns id name) (halike : w.Alike w') : w'.Owns id name := by
  obtain ⟨n, hn⟩ := h
  exact (halike.endsAlike n).own hn

theorem Alike.trans {w₁ w₂ : World} (h : w.Alike w₁) (h' : w₁.Alike w₂) : w.Alike w₂ where
  files_eq := h'.files_eq.trans h.files_eq
  loader id := by
    rcases h.loader id with heq | ⟨roots, parent, defined, defined₁, hw, hw₁, hlookup⟩
    · rcases h'.loader id with heq' | ⟨roots, parent, defined₁, defined₂, hw₁, hw₂, hlookup'⟩
      · exact .inl (heq'.trans heq)
      · refine .inr ⟨roots, parent, defined₁, defined₂, heq.symm.trans hw₁, hw₂, fun name ↦ ?_⟩
        exact ⟨(hlookup' name).1, fun h₂ ↦ ((hlookup' name).2 h₂).of_alike h.symm⟩
    · rcases h'.loader id with heq' | ⟨_, _, _, defined₂, hw₁', hw₂, hlookup'⟩
      · refine .inr ⟨roots, parent, defined, defined₁, hw, heq'.trans hw₁, fun name ↦ ?_⟩
        exact ⟨fun h₀ ↦ ((hlookup name).1 h₀).of_alike h', (hlookup name).2⟩
      · cases hw₁.symm.trans hw₁'
        refine .inr ⟨roots, parent, defined, defined₂, hw, hw₂, fun name ↦ ?_⟩
        exact ⟨fun h₀ ↦ ((hlookup name).1 h₀).of_alike h',
          fun h₂ ↦ ((hlookup' name).2 h₂).of_alike h.symm⟩

/-! ## Searches lead to alike worlds -/

/-- A loader that keeps a class which it would make anyhow does not change. -/
theorem Owns.alike_defineIn {file : ClassFile} (h : w.Owns id file.name)
    (superclass : Option Class) : w.Alike (w.defineIn id file superclass).2 where
  files_eq := files_defineIn w id file superclass
  loader other := by
    rcases loader?_defineIn w id file superclass other with
      heq | ⟨rfl, roots, parent, defined, hloader, -, hnew⟩
    · exact .inl heq
    · refine .inr ⟨roots, parent, defined, _, hloader, hnew, fun name ↦ ⟨fun hlookup ↦ ?_, ?_⟩⟩
      · refine ⟨1, verdict_own_of_lookup hnew ?_ 0⟩
        rw [List.lookup_append, Option.isSome_or, hlookup, Bool.true_or]
      · rw [List.lookup_append, Option.isSome_or, Bool.or_eq_true]
        rintro (hdefined | hadded)
        · exact ⟨1, verdict_own_of_lookup hloader hdefined 0⟩
        · rw [List.lookup_cons] at hadded
          split at hadded
          next heq => exact beq_iff_eq.mp heq ▸ h
          next => cases hadded

theorem alike_of_search (n : Nat) :
    (∀ id name w r w', loadWithin n id name w = some (r, w') → w.Alike w') ∧
    (∀ id name w r w', findWithin n id name w = some (r, w') → w.Alike w') ∧
    ∀ id file w r w', w.Owns id file.name → linkWithin n id file w = some (r, w') →
      w.Alike w' := by
  induction n with
  | zero =>
    refine ⟨fun id name w r w' h ↦ ?_, fun id name w r w' h ↦ ?_, fun id file w r w' _ h ↦ ?_⟩
    all_goals cases h
  | succ n ih =>
    obtain ⟨hload, hfind, hlink⟩ := ih
    have hown {id name w r w'} (h : ownWithin n id name w = some (r, w')) : w.Alike w' := by
      obtain ⟨found, hrun, -⟩ := own_cases h
      exact hfind _ _ _ _ _ hrun
    refine ⟨fun id name w r w' h ↦ ?_, fun id name w r w' h ↦ ?_, fun id file w r w' howns h ↦ ?_⟩
    · rcases load_cases h with ⟨p, -, hrun, -⟩ | ⟨-, hrun⟩ | ⟨p, _, w₁, -, hmissing, hrun⟩
      · exact hload _ _ _ _ _ hrun
      · exact hown hrun
      · exact (hload _ _ _ _ _ hmissing).trans (hown hrun)
    · rcases find_cases h with
        ⟨rfl, -⟩ | ⟨_, _, _, -, hrun, -⟩ | ⟨_, _, _, file, r, -, hread, hrun, rfl⟩
      · exact .refl _
      · exact hload _ _ _ _ _ hrun
      · rcases r with e | c
        · rw [(eq_of_search_error n).2.2 _ _ _ _ _ hrun]
          exact .refl _
        · -- The search that is under way shows that the loader has the class.
          obtain ⟨-, -, -, -, rfl, -⟩ := exists_read_of_readClassFile hread
          refine hlink id file w _ _ ⟨n + 1, ?_⟩ hrun
          rw [LoadM.verdict, ownWithin, h]
          rfl
    · rcases link_cases h with ⟨superclass, w₁, -, rfl, hsuper⟩ | ⟨_, _, -, hrun⟩
      · have hbefore : w.Alike w₁ := by
          rcases hsuper with ⟨-, -, rfl⟩ | ⟨_, _, -, -, hrun⟩
          · exact .refl _
          · exact hload _ _ _ _ _ hrun
        exact hbefore.trans ((howns.of_alike hbefore).alike_defineIn superclass)
      · exact hload _ _ _ _ _ hrun

theorem alike_load (w : World) (id : LoaderId) (name : String) : w.Alike (w.load id name).2 :=
  search_induction (fun n _ _ hrun ↦ (alike_of_search n).1 _ _ _ _ _ hrun)
    ⟨rfl, fun _ ↦ .inl rfl⟩

/-- Classes were loaded, by any loaders, and nothing else has happened. -/
def Loading : World → World → Prop := ReflTransGen fun w w' ↦ ∃ id name, w' = (w.load id name).2

theorem Loading.alike (h : w.Loading w') : w.Alike w' := by
  refine keeps_of_steps (P := w.Alike) (fun s s' hstep hs ↦ ?_) h (.refl w)
  obtain ⟨id, name, rfl⟩ := hstep
  exact hs.trans (alike_load s id name)

theorem Loading.history (h : w.Loading w') : w.History w' := by
  refine keeps_of_steps (P := w.History) (fun s s' hstep hs ↦ ?_) h .refl
  obtain ⟨id, name, rfl⟩ := hstep
  exact hs.tail (.load s id name)

/-! ## The verdict on a name -/

/-- The bound that a world supplies suffices, also for loaders that do not exist. -/
theorem Ends.isSome_searchDepth (h : w.Ends id name) (hw : w.Ordered) :
    (loadWithin w.searchDepth id name w).isSome := by
  by_cases hid : id < w.loaders.size
  · exact isSome_of_le (le_searchDepth hid) (isSome_of_ends hw h)
  · have hnone : w.loader? id = none := Array.getElem?_eq_none (Nat.le_of_not_lt hid)
    have htwo : 2 ≤ w.searchDepth := by
      have hnodes : 4 * 2 ≤ 4 * (w.files.nodes.length + 2) :=
        Nat.mul_le_mul_left 4 (Nat.le_add_left 2 _)
      exact Nat.le_trans (by decide) (Nat.mul_le_mul hnodes (Nat.le_add_left 2 _))
    refine isSome_of_le htwo ?_
    rw [loadWithin_succ, hnone, Option.bind_none, Option.elim_none, ownWithin, findWithin_succ,
      hnone]
    rfl

theorem ofLoad_of_verdict (hw : w.Ordered) {n : Nat}
    (h : (loadWithin n id name).verdict w = some v) : Verdict.ofLoad (w.load id name).1 = v := by
  obtain ⟨outcome, hrun, rfl⟩ := Option.map_eq_some_iff.mp h
  obtain ⟨outcome', hrun'⟩ :=
    Option.isSome_iff_exists.mp (Ends.isSome_searchDepth ⟨outcome, n, hrun⟩ hw)
  obtain rfl := Loads.unique ⟨_, hrun⟩ ⟨_, hrun'⟩
  rw [load_of_loadWithin hrun']

/-- A search that does not end counts as one that finds nothing. -/
theorem verdict_or_missing (w : World) (id : LoaderId) (name : String) :
    (∃ n, (loadWithin n id name).verdict w = some (.ofLoad (w.load id name).1)) ∨
      Verdict.ofLoad (w.load id name).1 = .missing := by
  rcases hrun : loadWithin w.searchDepth id name w with _ | outcome
  · right
    rw [load, search, hrun]
    rfl
  · left
    refine ⟨w.searchDepth, ?_⟩
    rw [load_of_loadWithin hrun, LoadM.verdict, hrun, Option.map_some]

theorem Alike.ofLoad_load_eq (h : w.Alike w') (hw : w.Ordered) (hw' : w'.Ordered) (id : LoaderId)
    (name : String) : Verdict.ofLoad (w'.load id name).1 = Verdict.ofLoad (w.load id name).1 := by
  rcases verdict_or_missing w id name with ⟨n, hn⟩ | hmissing
  · obtain ⟨m, hm⟩ := (h.endsAlike n).load hn
    exact ofLoad_of_verdict hw' hm
  · rcases verdict_or_missing w' id name with ⟨n, hn⟩ | hmissing'
    · obtain ⟨m, hm⟩ := (h.symm.endsAlike n).load hn
      exact (ofLoad_of_verdict hw hm).symm
    · rw [hmissing, hmissing']

/-- Loading classes changes the verdict on no name. -/
theorem Loading.ofLoad_load_eq (h : w.Loading w') (hw : w.Ordered) (id : LoaderId) (name : String) :
    Verdict.ofLoad (w'.load id name).1 = Verdict.ofLoad (w.load id name).1 :=
  h.alike.ofLoad_load_eq hw (h.history.ordered hw) id name

end World

end BuildScript
