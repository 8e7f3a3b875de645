import BuildScript.Loading.Search
import BuildScript.Proofs.Files.Operations

/-!
# Searches for classes

What a search can do to the world: it defines classes, one after the other, in loaders that are there
already. So the files stay, and so do the loaders but for the classes that they have defined.
-/

namespace BuildScript

open Relation

/-! ## Operations on the world -/

namespace LoadM

variable {α β : Type}

theorem get_apply (w : World) : (get : LoadM World) w = some (.ok w, w) := rfl

theorem bind_apply (op : LoadM α) (f : α → LoadM β) (w : World) :
    (op >>= f) w =
      match op w with
      | none => none
      | some (.ok a, w') => f a w'
      | some (.error e, w') => some (.error e, w') := by
  change (op w).bind _ = _
  rcases op w with _ | ⟨e | a, w'⟩ <;> rfl

theorem fmap_apply (f : α → β) (op : LoadM α) (w : World) :
    (f <$> op) w =
      match op w with
      | none => none
      | some (.ok a, w') => some (.ok (f a), w')
      | some (.error e, w') => some (.error e, w') := by
  change (op w).bind _ = _
  rcases op w with _ | ⟨e | a, w'⟩ <;> rfl

theorem tryCatch_apply (op : LoadM α) (handler : LoadError → LoadM α) (w : World) :
    (tryCatch op handler) w =
      match op w with
      | none => none
      | some (.ok a, w') => some (.ok a, w')
      | some (.error e, w') => handler e w' := by
  change (op w).bind _ = _
  rcases op w with _ | ⟨e | a, w'⟩ <;> rfl

end LoadM

/-! ## One level of a search -/

section Levels

open LoadM

variable (n : Nat) (id : LoaderId) (name : String) (file : ClassFile) (w : World)

/-- What a loader does when its parent has not found the class. -/
def ownWithin : LoadM Class := fun w ↦
  match findWithin n id name w with
  | none => none
  | some (.ok (some c), w') => some (.ok c, w')
  | some (.ok none, w') => some (.error (.classNotFound name), w')
  | some (.error e, w') => some (.error e, w')

theorem loadWithin_succ : loadWithin (n + 1) id name w =
    ((w.loader? id).bind (·.parent?)).elim (ownWithin n id name w) fun parent ↦
      match loadWithin n parent name w with
      | some (.error (.classNotFound _), w') => ownWithin n id name w'
      | outcome => outcome := by
  have hown (w : World) {rest : Option Class → LoadM Class}
      (hnone : rest none = throw (.classNotFound name)) (hsome : ∀ c, rest (some c) = pure c) :
      (findWithin n id name >>= rest) w = ownWithin n id name w := by
    rw [bind_apply, ownWithin]
    rcases findWithin n id name w with _ | ⟨e | _ | c, w'⟩
    · rfl
    · rfl
    · exact congrFun hnone w'
    · exact congrFun (hsome c) w'
  rw [loadWithin, bind_apply, get_apply]
  dsimp only
  cases (w.loader? id).bind (·.parent?) with
  | none =>
    exact hown w rfl fun _ ↦ rfl
  | some parent =>
    dsimp only
    rw [bind_apply, tryCatch_apply, fmap_apply, Option.elim_some]
    rcases loadWithin n parent name w with _ | ⟨e | c, w'⟩
    · rfl
    · cases e <;> first | rfl | exact hown w' rfl fun _ ↦ rfl
    · rfl

theorem findWithin_succ : findWithin (n + 1) id name w =
    match w.loader? id with
    | none => some (.ok none, w)
    | some (.system classes) => some (.ok (classes.lookup name), w)
    | some (.filtering delegate filter) =>
      if filter.allows name then
        match loadWithin n delegate name w with
        | none => none
        | some (.ok c, w') => some (.ok (some c), w')
        | some (.error (.classNotFound _), w') => some (.ok none, w')
        | some (.error e, w') => some (.error e, w')
      else some (.ok none, w)
    | some (.classPath roots _ defined) =>
      match defined.lookup name with
      | some c => some (.ok (some c), w)
      | none =>
        match readClassFile w.files name roots with
        | .error e => some (.error e, w)
        | .ok none => some (.ok none, w)
        | .ok (some file) =>
          match linkWithin n id file w with
          | none => none
          | some (.ok c, w') => some (.ok (some c), w')
          | some (.error e, w') => some (.error e, w') := by
  rw [findWithin, bind_apply, get_apply]
  dsimp only
  rcases w.loader? id with _ | classes | ⟨roots, parent, defined⟩ | ⟨delegate, filter⟩
  · rfl
  · rfl
  · dsimp only
    rcases defined.lookup name with _ | c
    · dsimp only
      rcases readClassFile w.files name roots with e | _ | file
      · rfl
      · rfl
      · dsimp only
        rw [fmap_apply]
        rcases linkWithin n id file w with _ | ⟨e | c, w'⟩ <;> rfl
    · rfl
  · dsimp only
    split
    · rw [bind_apply, tryCatch_apply, bind_apply, fmap_apply]
      rcases loadWithin n delegate name w with _ | ⟨e | c, w'⟩
      · rfl
      · cases e <;> rfl
      · rfl
    · rfl

theorem linkWithin_succ : linkWithin (n + 1) id file w =
    match file.superName with
    | none => some (.ok (w.defineIn id file none).1, (w.defineIn id file none).2)
    | some superName =>
      match loadWithin n id superName w with
      | none => none
      | some (.ok c, w') =>
        some (.ok (w'.defineIn id file (some c)).1, (w'.defineIn id file (some c)).2)
      | some (.error e, w') => some (.error (.missingSuperclass file.name superName e), w') := by
  rw [linkWithin]
  rcases file.superName with _ | superName
  · rfl
  · dsimp only
    rw [bind_apply, tryCatch_apply, fmap_apply]
    rcases loadWithin n id superName w with _ | ⟨e | c, w'⟩ <;> rfl

end Levels

/-! ## What a level has come to -/

section Outcomes

open LoadM

variable {n : Nat} {id : LoaderId} {name : String} {file : ClassFile} {w w' : World}
  {r : Except LoadError Class}

/-- A loader without a parent that has the class answers with what it finds. -/
theorem own_cases (h : ownWithin n id name w = some (r, w')) :
    ∃ found, findWithin n id name w = some (found, w') ∧
      r = found.bind fun c ↦ c.elim (.error (.classNotFound name)) .ok := by
  rw [ownWithin] at h
  rcases hfind : findWithin n id name w with _ | ⟨e | _ | c, w₁⟩
  · rw [hfind] at h
    cases h
  all_goals
    rw [hfind] at h
    cases h
    exact ⟨_, rfl, rfl⟩

/-- A loader answers as its parent does, unless the parent has not found the class or there is none. -/
theorem load_cases (h : loadWithin (n + 1) id name w = some (r, w')) :
    (∃ p, (w.loader? id).bind (·.parent?) = some p ∧ loadWithin n p name w = some (r, w') ∧
      ∀ other, r ≠ .error (.classNotFound other)) ∨
    (w.loader? id).bind (·.parent?) = none ∧ ownWithin n id name w = some (r, w') ∨
    ∃ p other w₁, (w.loader? id).bind (·.parent?) = some p ∧
      loadWithin n p name w = some (.error (.classNotFound other), w₁) ∧
      ownWithin n id name w₁ = some (r, w') := by
  rw [loadWithin_succ] at h
  cases hparent : (w.loader? id).bind (·.parent?) with
  | none =>
    rw [hparent] at h
    exact .inr (.inl ⟨rfl, h⟩)
  | some p =>
    rw [hparent, Option.elim_some] at h
    split at h
    next other w₁ hmissing => exact .inr (.inr ⟨p, other, w₁, rfl, hmissing, h⟩)
    next hother =>
      refine .inl ⟨p, rfl, h, ?_⟩
      rintro other rfl
      exact hother other w' h

/-- What a filtering loader has found if the loader behind it answers so: it is no error that a class
is missing. -/
def foundBehind : Except LoadError Class → Except LoadError (Option Class)
  | .ok c => .ok (some c)
  | .error (.classNotFound _) => .ok none
  | .error e => .error e

/-- A loader knows at once what it has found, or another loader has answered, or it has linked a class
file. -/
theorem find_cases {found : Except LoadError (Option Class)}
    (h : findWithin (n + 1) id name w = some (found, w')) :
    (w' = w ∧ ((∃ c, found = .ok c) ∨
      ∃ roots e, readClassFile w.files name roots = .error e ∧ found = .error e)) ∨
    (∃ delegate filter r, w.loader? id = some (.filtering delegate filter) ∧
      loadWithin n delegate name w = some (r, w') ∧ found = foundBehind r) ∨
    ∃ roots parent defined file r, w.loader? id = some (.classPath roots parent defined) ∧
      readClassFile w.files name roots = .ok (some file) ∧
      linkWithin n id file w = some (r, w') ∧ found = r.map some := by
  rw [findWithin_succ] at h
  rcases hloader : w.loader? id with _ | classes | ⟨roots, parent, defined⟩ | ⟨delegate, filter⟩
  · rw [hloader] at h
    cases h
    exact .inl ⟨rfl, .inl ⟨_, rfl⟩⟩
  · rw [hloader] at h
    cases h
    exact .inl ⟨rfl, .inl ⟨_, rfl⟩⟩
  · rw [hloader] at h
    dsimp only at h
    rcases hlookup : defined.lookup name with _ | c
    · rw [hlookup] at h
      dsimp only at h
      rcases hread : readClassFile w.files name roots with e | _ | file
      · rw [hread] at h
        cases h
        exact .inl ⟨rfl, .inr ⟨roots, e, hread, rfl⟩⟩
      · rw [hread] at h
        cases h
        exact .inl ⟨rfl, .inl ⟨_, rfl⟩⟩
      · rw [hread] at h
        dsimp only at h
        refine .inr (.inr ⟨roots, parent, defined, file, ?_⟩)
        rcases hlink : linkWithin n id file w with _ | ⟨e | c, w₁⟩
        · rw [hlink] at h
          cases h
        all_goals
          rw [hlink] at h
          cases h
          exact ⟨_, rfl, hread, rfl, rfl⟩
    · rw [hlookup] at h
      cases h
      exact .inl ⟨rfl, .inl ⟨_, rfl⟩⟩
  · rw [hloader] at h
    dsimp only at h
    split at h
    · refine .inr (.inl ⟨delegate, filter, ?_⟩)
      rcases hdelegate : loadWithin n delegate name w with _ | ⟨e | c, w₁⟩
      · rw [hdelegate] at h
        cases h
      · rw [hdelegate] at h
        cases e <;> cases h <;> exact ⟨_, rfl, rfl, rfl⟩
      · rw [hdelegate] at h
        cases h
        exact ⟨_, rfl, rfl, rfl⟩
    · cases h
      exact .inl ⟨rfl, .inl ⟨_, rfl⟩⟩

/-- A class file is linked with the superclass that was loaded for it, or there is none to be had. -/
theorem link_cases (h : linkWithin (n + 1) id file w = some (r, w')) :
    (∃ superclass w₁, r = .ok (w₁.defineIn id file superclass).1 ∧
      w' = (w₁.defineIn id file superclass).2 ∧
      (file.superName = none ∧ superclass = none ∧ w₁ = w ∨
        ∃ superName c, file.superName = some superName ∧ superclass = some c ∧
          loadWithin n id superName w = some (.ok c, w₁))) ∨
    ∃ superName e, r = .error (.missingSuperclass file.name superName e) ∧
      loadWithin n id superName w = some (.error e, w') := by
  rw [linkWithin_succ] at h
  cases hsuper : file.superName with
  | none =>
    rw [hsuper] at h
    cases h
    exact .inl ⟨none, w, rfl, rfl, .inl ⟨rfl, rfl, rfl⟩⟩
  | some superName =>
    rw [hsuper] at h
    dsimp only at h
    rcases hload : loadWithin n id superName w with _ | ⟨e | c, w₁⟩
    · rw [hload] at h
      cases h
    · rw [hload] at h
      cases h
      exact .inr ⟨superName, e, rfl, hload⟩
    · rw [hload] at h
      cases h
      exact .inl ⟨some c, w₁, rfl, rfl, .inr ⟨superName, c, rfl, rfl, hload⟩⟩

end Outcomes

/-! ## What a search does to the world -/

/-- A class was made and kept by its loader, unless the loader has one of that name. -/
inductive World.Defines : World → World → Prop
  | define (w : World) (id : LoaderId) (file : ClassFile) (superclass : Option Class) :
    Defines w (w.defineIn id file superclass).2

open World

/-- A search defines classes and does nothing else. -/
theorem defines_of_search (n : Nat) :
    (∀ id name w r w', loadWithin n id name w = some (r, w') → ReflTransGen Defines w w') ∧
    (∀ id name w r w', findWithin n id name w = some (r, w') → ReflTransGen Defines w w') ∧
    ∀ id file w r w', linkWithin n id file w = some (r, w') → ReflTransGen Defines w w' := by
  induction n with
  | zero =>
    refine ⟨fun id name w r w' h ↦ ?_, fun id name w r w' h ↦ ?_, fun id file w r w' h ↦ ?_⟩
    all_goals cases h
  | succ n ih =>
    obtain ⟨hload, hfind, hlink⟩ := ih
    have hown {id name w r w'} (h : ownWithin n id name w = some (r, w')) :
        ReflTransGen Defines w w' := by
      obtain ⟨found, hrun, -⟩ := own_cases h
      exact hfind _ _ _ _ _ hrun
    refine ⟨fun id name w r w' h ↦ ?_, fun id name w r w' h ↦ ?_, fun id file w r w' h ↦ ?_⟩
    · rcases load_cases h with ⟨p, -, hrun, -⟩ | ⟨-, hrun⟩ | ⟨p, _, w₁, -, hmissing, hrun⟩
      · exact hload _ _ _ _ _ hrun
      · exact hown hrun
      · exact (hload _ _ _ _ _ hmissing).trans (hown hrun)
    · rcases find_cases h with ⟨rfl, -⟩ | ⟨_, _, _, -, hrun, -⟩ | ⟨_, _, _, _, _, -, -, hrun, -⟩
      · exact .refl
      · exact hload _ _ _ _ _ hrun
      · exact hlink _ _ _ _ _ hrun
    · rcases link_cases h with ⟨superclass, w₁, -, rfl, hsuper⟩ | ⟨_, _, -, hrun⟩
      · rcases hsuper with ⟨-, -, rfl⟩ | ⟨_, _, -, -, hrun⟩
        · exact .single (.define w₁ id file superclass)
        · exact (hload _ _ _ _ _ hrun).tail (.define w₁ id file superclass)
      · exact hload _ _ _ _ _ hrun

namespace World

variable {w w' : World}

theorem files_defineIn (w : World) (id : LoaderId) (file : ClassFile) (superclass : Option Class) :
    (w.defineIn id file superclass).2.files = w.files := by
  rw [defineIn]
  dsimp only
  split
  · split <;> rfl
  · rfl

theorem Defines.files_eq (h : ReflTransGen Defines w w') : w'.files = w.files :=
  keeps_of_steps (P := fun s ↦ s.files = w.files)
    (fun s s' hstep hs ↦ by
      obtain ⟨id, file, superclass⟩ := hstep
      rw [files_defineIn, hs]) h rfl

/-- What loading a class keeps of the world, whatever is loaded. -/
def KeptByLoading (P : World → Prop) : Prop := ∀ id name w, P w → P (w.load id name).2

theorem keptByLoading_of_defines {P : World → Prop}
    (h : ∀ w w', ReflTransGen Defines w w' → P w → P w')
    (hendless : ∀ w, P w → P { w with endless := true }) : KeptByLoading P := by
  intro id name w hw
  rw [load, search]
  split
  next r w' hrun => exact h w w' ((defines_of_search _).1 _ _ _ _ _ hrun) hw
  next => exact hendless w hw

/-- Loading a class leaves the files as they are. -/
theorem keptByLoading_files (files : FileTree) : KeptByLoading (·.files = files) :=
  keptByLoading_of_defines (fun _ _ h hw ↦ (Defines.files_eq h).trans hw) fun _ hw ↦ hw

theorem keptByLoading_of_files (P : FileTree → Prop) : KeptByLoading fun w ↦ P w.files := by
  intro id name w hw
  have hfiles : (w.load id name).2.files = w.files := keptByLoading_files w.files id name w rfl
  rwa [hfiles]

/-- The loader of the platform answers from its list, and loading changes nothing. -/
theorem load_system {w : World} {id : LoaderId} {classes : List (String × Class)}
    (h : w.loader? id = some (.system classes)) (name : String) :
    w.load id name = ((classes.lookup name).elim (.error (.classNotFound name)) .ok, w) := by
  have hdepth : ∃ n, w.searchDepth = n + 2 := by
    refine ⟨w.searchDepth - 2, ?_⟩
    rw [searchDepth]
    have hnodes : 2 ≤ w.files.nodes.length + 2 := by omega
    have hloaders : 2 ≤ w.loaders.size + 2 := by omega
    have := Nat.mul_le_mul (Nat.mul_le_mul (Nat.le_refl 4) hnodes) hloaders
    omega
  obtain ⟨n, hn⟩ := hdepth
  rw [load, search, hn, loadWithin_succ, h, Option.bind_some, Loader.parent?, Option.elim_none,
    ownWithin, findWithin_succ, h]
  dsimp only
  cases classes.lookup name <;> rfl

end World

end BuildScript
