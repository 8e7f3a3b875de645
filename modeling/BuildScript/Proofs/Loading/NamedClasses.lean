import BuildScript.Proofs.Loading.CachedLoaders

/-!
# Names of loaded classes

A loader that is asked for a name answers with a class of that name. For loaders keep their classes
under their own names: so the platform begins, and a class path loader keeps a class under the name
of the file that it is made of. Searches and new loaders keep this, whatever the class files are.
-/

namespace BuildScript

open Relation LoadM

namespace World

variable {w w' : World} {id : LoaderId} {l : Loader} {name : String} {c : Class}

/-- Each class has the name for which it was asked. -/
def AnswersByName (w : World) : Prop :=
  ∀ id name c, (w.load id name).1 = .ok c → c.name = name

/-- The loaders keep their classes under their own names. -/
def Named (w : World) : Prop :=
  ∀ id l, w.loader? id = some l → ∀ x ∈ l.defined, x.2.name = x.1

theorem Named.name_of_lookup (hw : w.Named) (hloader : w.loader? id = some l)
    (h : l.defined.lookup name = some c) : c.name = name := by
  obtain ⟨before, after, hdefined, -⟩ := List.lookup_eq_some_iff.mp h
  exact hw id l hloader (name, c) (hdefined ▸ List.mem_append_right _ List.mem_cons_self)

/-! ## What keeps the names -/

theorem Named.addLoader (hw : w.Named) (hl : ∀ x ∈ l.defined, x.2.name = x.1) :
    (w.addLoader l).2.Named := by
  intro id l' hl'
  have hid : id < w.loaders.size + 1 := by
    have := lt_size_of_loader? hl'
    rwa [World.addLoader, Array.size_push] at this
  rcases Nat.lt_succ_iff_lt_or_eq.mp hid with hlt | rfl
  · rw [loader?_addLoader_of_lt l hlt] at hl'
    exact hw id l' hl'
  · cases (loader?_addLoader_self w l).symm.trans hl'
    exact hl

theorem Named.defineIn (hw : w.Named) (id : LoaderId) (file : ClassFile)
    (superclass : Option Class) : (w.defineIn id file superclass).2.Named := by
  intro other l hl x hx
  rcases loader?_defineIn w id file superclass other with
    heq | ⟨rfl, roots, parent, defined, hloader, -, hnew⟩
  · exact hw other l (heq.symm.trans hl) x hx
  · cases hnew.symm.trans hl
    rcases List.mem_append.mp hx with hx | hx
    · exact hw other _ hloader x hx
    · rw [List.mem_singleton.mp hx]
      rfl

theorem Named.defines (hw : w.Named) (h : ReflTransGen Defines w w') : w'.Named :=
  keeps_of_steps (fun _ _ hstep hs ↦ by
    obtain ⟨id, file, superclass⟩ := hstep
    exact hs.defineIn id file superclass) h hw

theorem name_eq_of_mem_define {classes : List (String × Class)}
    (h : ∀ x ∈ classes, x.2.name = x.1) : ∀ x ∈ define classes c, x.2.name = x.1 := by
  intro x hx
  rcases List.mem_cons.mp hx with rfl | hx
  · rfl
  · exact h x (List.mem_filter.mp hx).1

theorem name_eq_of_mem_defineNatives (natives : List NativeClass) (count : Nat)
    {classes : List (String × Class)} (h : ∀ x ∈ classes, x.2.name = x.1) :
    ∀ x ∈ (defineNatives natives count classes).2, x.2.name = x.1 := by
  induction natives generalizing count classes with
  | nil => exact h
  | cons n natives ih => exact ih (count + 1) (name_eq_of_mem_define h)

/-- The platform's classes are kept under their own names. -/
theorem named_start (natives : List NativeClass) : (start natives).2.Named := by
  have hclasses : ∀ x ∈ (defineNatives (platformClasses ++ natives) 0 []).2, x.2.name = x.1 :=
    name_eq_of_mem_defineNatives _ 0 fun _ hx ↦ absurd hx List.not_mem_nil
  exact Named.addLoader (fun _ _ hl ↦ by cases hl) hclasses

/-! ## What is loaded -/

theorem Named.name_defineIn (hw : w.Named) (id : LoaderId) (file : ClassFile)
    (superclass : Option Class) : (w.defineIn id file superclass).1.name = file.name := by
  rw [defineIn_eq]
  dsimp only
  split
  next hloader =>
    split
    next hlookup => exact hw.name_of_lookup hloader hlookup
    next => rfl
  next => rfl

theorem name_of_search (n : Nat) :
    (∀ id name c w w', w.Named → loadWithin n id name w = some (.ok c, w') → c.name = name) ∧
    (∀ id name c w w', w.Named → findWithin n id name w = some (.ok (some c), w') →
      c.name = name) ∧
    ∀ id file c w w', w.Named → linkWithin n id file w = some (.ok c, w') → c.name = file.name := by
  induction n with
  | zero =>
    refine ⟨fun id name c w w' hw h ↦ ?_, fun id name c w w' hw h ↦ ?_,
      fun id file c w w' hw h ↦ ?_⟩
    all_goals cases h
  | succ n ih =>
    obtain ⟨hload, hfind, hlink⟩ := ih
    have hown {id name c w w'} (hw : w.Named)
        (h : ownWithin n id name w = some (.ok c, w')) : c.name = name := by
      obtain ⟨e | _ | c', hrun, hr⟩ := own_cases h
      · cases hr
      · cases hr
      · cases hr
        exact hfind _ _ _ _ _ hw hrun
    refine ⟨fun id name c w w' hw h ↦ ?_, fun id name c w w' hw h ↦ ?_,
      fun id file c w w' hw h ↦ ?_⟩
    · rcases load_cases h with ⟨p, -, hrun, -⟩ | ⟨-, hrun⟩ | ⟨p, _, w₁, -, hmissing, hrun⟩
      · exact hload _ _ _ _ _ hw hrun
      · exact hown hw hrun
      · exact hown (hw.defines ((defines_of_search n).1 _ _ _ _ _ hmissing)) hrun
    · rcases hloader : w.loader? id with _ | classes | ⟨roots, parent, defined⟩ | ⟨delegate, filter⟩
      · rw [findWithin_succ, hloader] at h
        cases h
      · rw [findWithin_succ, hloader, Option.some_inj, Prod.mk.injEq] at h
        exact hw.name_of_lookup hloader (Except.ok.inj h.1)
      · -- Whether the class was there or was made now, it is kept afterwards.
        obtain ⟨defined₁, hloader₁, hlookup⟩ := lookup_of_find hloader h
        exact (hw.defines ((defines_of_search _).2.1 _ _ _ _ _ h)).name_of_lookup hloader₁ hlookup
      · rw [findWithin_succ, hloader] at h
        dsimp only at h
        split at h
        · split at h
          next => cases h
          next hrun =>
            cases h
            exact hload _ _ _ _ _ hw hrun
          next => cases h
          next => cases h
        · cases h
    · rcases link_cases h with ⟨superclass, w₁, hr, -, hsuper⟩ | ⟨_, _, hr, -⟩
      · cases hr
        rcases hsuper with ⟨-, -, rfl⟩ | ⟨_, _, -, -, hrun⟩
        · exact hw.name_defineIn id file superclass
        · exact (hw.defines ((defines_of_search n).1 _ _ _ _ _ hrun)).name_defineIn _ _ _
      · cases hr

theorem Named.answersByName (hw : w.Named) : w.AnswersByName := by
  intro id name c h
  rw [load, search] at h
  split at h
  next r w' hrun =>
    obtain rfl : r = .ok c := h
    exact (name_of_search _).1 _ _ _ _ _ hw hrun
  next => cases h

end World

/-- A cache that makes a loader gives it no classes. -/
theorem LoaderCache.named_get {w : World} (hw : w.Named) (cache : LoaderCache) (id : String)
    (spec : LoaderSpec) : (cache.get w id spec).2.2.Named := by
  have hcreate : (create spec w).2.Named := by
    rcases create_cases spec w with ⟨p, filter, -, -, heq⟩ | ⟨-, heq⟩
    · have hbetween : (w.addFilter p filter).2.Named :=
        hw.addLoader fun _ hx ↦ absurd hx List.not_mem_nil
      rw [heq]
      exact hbetween.addLoader fun _ hx ↦ absurd hx List.not_mem_nil
    · rw [heq]
      exact hw.addLoader fun _ hx ↦ absurd hx List.not_mem_nil
  rcases get_cases cache w id spec with ⟨made, loader, -, -, heq⟩ | ⟨-, heq⟩
  · rw [heq]
    exact hw
  · rw [heq]
    exact hcreate

end BuildScript
