import BuildScript.Proofs.Loading.SuperclassCycles

/-!
# Defined classes

A class path loader keeps a class from the moment it has made it. `World.classes_of_history` says so
for all that can happen afterwards: further searches in this or in any other loader, new loaders,
and files that change in between. It also says what is kept: classes under their own names, of class
files that were verified, each with the superclass that the loader loads for the name in the file.

The superclass is not loaded in the world in which the class is kept, since loading it may define
classes itself, even one of the name that is being defined. What saves the statement is that all the
searches inside one call begin in the same world: a class path loader looks for a file only after
its parent has failed, and a search that fails has changed nothing. So `World.Adds` compares the end
of a call with its beginning and speaks of no world between them.
-/

namespace BuildScript

open Relation LoadM

/-! ## Where a superclass comes from -/

/-- The class was made of a class file of its name, which was verified. If the file names a
superclass, then the class has one, to which the name is related. -/
def Class.MadeOf (c : Class) (name : String) (Super : String → Class → Prop) : Prop :=
  ∃ file, c.entry.file? = some file ∧ c.name = name ∧ file.name = name ∧ file.verify = .ok () ∧
    file.superName.elim (c.superclass? = none) fun superName ↦
      ∃ superclass, c.superclass? = some superclass ∧ Super superName superclass

theorem Class.MadeOf.mono {c : Class} {name : String} {Super Super' : String → Class → Prop}
    (h : c.MadeOf name Super) (himp : ∀ s superclass, Super s superclass → Super' s superclass) :
    c.MadeOf name Super' := by
  obtain ⟨file, hfile, hc, hname, hverify, hsuper⟩ := h
  refine ⟨file, hfile, hc, hname, hverify, ?_⟩
  cases hs : file.superName with
  | none =>
    rw [hs] at hsuper
    exact hsuper
  | some s =>
    rw [hs] at hsuper
    obtain ⟨superclass, hclass, h⟩ := hsuper
    exact ⟨superclass, hclass, himp s superclass h⟩

theorem Class.madeOf_compiled {file : ClassFile} {superclass : Option Class}
    {Super : String → Class → Prop} (number : Nat) (hverify : file.verify = .ok ())
    (hsuper : file.superName.elim (superclass = none) fun s ↦ ∃ c, superclass = some c ∧ Super s c) :
    (Class.compiled number file superclass).MadeOf file.name Super := by
  refine ⟨file, rfl, rfl, rfl, hverify, ?_⟩
  cases hs : file.superName with
  | none =>
    rw [hs] at hsuper
    cases hsuper
    rfl
  | some s =>
    rw [hs] at hsuper
    obtain ⟨c, rfl, h⟩ := hsuper
    exact ⟨c, rfl, h⟩

namespace World

variable {w w₁ w₂ : World} {id : LoaderId} {name : String} {roots : List Path}
  {parent : Option LoaderId} {defined : List (String × Class)} {c : Class}

/-- What the parent of a loader answers for a name; without a parent there is no class. -/
def Inherits (w : World) (parent : Option LoaderId) (name : String) (r : Except LoadError Class) :
    Prop :=
  parent.elim (r = .error (.classNotFound name)) fun p ↦ ∃ w', w.Loads p name (r, w')

/-- The class comes from the parent, or the parent has none and the class is among those that are
defined. -/
def Obtains (w : World) (parent : Option LoaderId) (defined : List (String × Class)) (name : String)
    (c : Class) : Prop :=
  ∃ r, w.Inherits parent name r ∧
    (r = .ok c ∨ r = .error (.classNotFound name) ∧ defined.lookup name = some c)

theorem Obtains.append (h : w.Obtains parent defined name c) (added : List (String × Class)) :
    w.Obtains parent (defined ++ added) name c := by
  obtain ⟨r, hr, hfound⟩ := h
  refine ⟨r, hr, hfound.imp_right fun ⟨hmissing, hlookup⟩ ↦ ⟨hmissing, ?_⟩⟩
  rw [List.lookup_append, hlookup, Option.some_or]

/-- What a class path loader obtains it loads. -/
theorem Obtains.loads (h : w.Obtains parent defined name c)
    (hloader : w.loader? id = some (.classPath roots parent defined)) :
    ∃ w', w.Loads id name (.ok c, w') := by
  obtain ⟨r, hr, rfl | ⟨rfl, hlookup⟩⟩ := h
  · cases parent with
    | none => cases hr
    | some p =>
      obtain ⟨w', n, hload⟩ := hr
      refine ⟨w', n + 1, ?_⟩
      rw [loadWithin_succ, hloader, Option.bind_some, Loader.parent?, Option.elim_some, hload]
  · have hown (n : Nat) : ownWithin (n + 1) id name w = some (.ok c, w) := by
      rw [ownWithin, findWithin_succ, hloader]
      dsimp only
      rw [hlookup]
    cases parent with
    | none =>
      refine ⟨w, 2, ?_⟩
      rw [loadWithin_succ, hloader, Option.bind_some, Loader.parent?, Option.elim_none, hown]
    | some p =>
      obtain ⟨w', n, hload⟩ := hr
      obtain ⟨-, rfl⟩ := (unchanged_of_search n).1 _ _ _ _ _ hload
      refine ⟨w', n + 2, ?_⟩
      have hload' := loadWithin_mono (Nat.le_add_right n 1) w' _ hload
      rw [loadWithin_succ, hloader, Option.bind_some, Loader.parent?, Option.elim_some, hload']
      exact hown n

/-! ## One definition -/

section Definition

variable {file : ClassFile} {superclass : Option Class}

theorem defineIn_of_lookup (hloader : w.loader? id = some (.classPath roots parent defined))
    (hlookup : defined.lookup file.name = some c) :
    w.defineIn id file superclass = (c, { w with classCount := w.classCount + 1 }) := by
  rw [defineIn_eq, hloader]
  dsimp only
  rw [hlookup]

theorem defineIn_of_none (hloader : w.loader? id = some (.classPath roots parent defined))
    (hlookup : defined.lookup file.name = none) :
    w.defineIn id file superclass =
      (.compiled w.classCount file superclass,
        { w with
          classCount := w.classCount + 1
          loaders := w.loaders.setIfInBounds id (.classPath roots parent
            (defined ++ [(file.name, .compiled w.classCount file superclass)])) }) := by
  rw [defineIn_eq, hloader]
  dsimp only
  rw [hlookup]

/-- A loader that makes a class has it from then on. -/
theorem lookup_defineIn (hloader : w.loader? id = some (.classPath roots parent defined)) :
    ∃ defined', (w.defineIn id file superclass).2.loader? id =
        some (.classPath roots parent defined') ∧
      defined'.lookup file.name = some (w.defineIn id file superclass).1 := by
  cases hlookup : defined.lookup file.name with
  | some existing =>
    rw [defineIn_of_lookup hloader hlookup]
    exact ⟨defined, hloader, hlookup⟩
  | none =>
    rw [defineIn_of_none hloader hlookup]
    refine ⟨defined ++ [(file.name, .compiled w.classCount file superclass)], ?_, ?_⟩
    · exact Array.getElem?_setIfInBounds_self_of_lt (lt_size_of_loader? hloader)
    · rw [List.lookup_append, hlookup, Option.none_or, List.lookup_cons_self]

/-- Other loaders do not notice, and this one only if it lacks the name. -/
theorem loader?_defineIn (w : World) (id : LoaderId) (file : ClassFile) (superclass : Option Class)
    (other : LoaderId) :
    (w.defineIn id file superclass).2.loader? other = w.loader? other ∨
      other = id ∧ ∃ roots parent defined, w.loader? id = some (.classPath roots parent defined) ∧
        defined.lookup file.name = none ∧ (w.defineIn id file superclass).2.loader? id =
          some (.classPath roots parent
            (defined ++ [(file.name, .compiled w.classCount file superclass)])) := by
  rcases hloader : w.loader? id with _ | classes | ⟨roots, parent, defined⟩ | ⟨delegate, filter⟩
  · rw [defineIn_eq, hloader]
    exact .inl rfl
  · rw [defineIn_eq, hloader]
    exact .inl rfl
  · cases hlookup : defined.lookup file.name with
    | some existing =>
      rw [defineIn_of_lookup hloader hlookup]
      exact .inl rfl
    | none =>
      by_cases hother : other = id
      · refine .inr ⟨hother, roots, parent, defined, rfl, hlookup, ?_⟩
        rw [defineIn_of_none hloader hlookup]
        exact Array.getElem?_setIfInBounds_self_of_lt (lt_size_of_loader? hloader)
      · rw [defineIn_of_none hloader hlookup]
        exact .inl (Array.getElem?_setIfInBounds_ne (Ne.symm hother))
  · rw [defineIn_eq, hloader]
    exact .inl rfl

/-- Definitions leave a class path loader its roots and its parent. -/
theorem Defines.classPath (h : ReflTransGen Defines w w₁)
    (hloader : w.loader? id = some (.classPath roots parent defined)) :
    ∃ defined', w₁.loader? id = some (.classPath roots parent defined') := by
  refine keeps_of_steps
    (P := fun s : World ↦ ∃ defined', s.loader? id = some (.classPath roots parent defined'))
    (fun s s' hstep ⟨defined', hs⟩ ↦ ?_) h ⟨defined, hloader⟩
  obtain ⟨other, file, superclass⟩ := hstep
  rcases loader?_defineIn s other file superclass id with heq | ⟨rfl, _, _, _, hs', -, hnew⟩
  · exact ⟨defined', heq.trans hs⟩
  · cases hs.symm.trans hs'
    exact ⟨_, hnew⟩

end Definition

/-! ## Classes that were found -/

theorem defineWithin_apply (n : Nat) (id : LoaderId) (file : ClassFile) (w : World) :
    defineWithin n id file w =
      match (w.loader? id).bind (·.defined.lookup file.name) with
      | some existing => some (.ok existing, w)
      | none =>
        match file.verify with
        | .error e => some (.error (.verify ⟨"<memory>/" ++ file.name⟩ e), w)
        | .ok _ => linkWithin n id file w := by
  rw [defineWithin, bind_apply, get_apply]
  dsimp only
  cases (w.loader? id).bind (·.defined.lookup file.name) with
  | some existing => rfl
  | none => cases file.verify <;> rfl

section Found

variable {n : Nat} (hloader : w.loader? id = some (.classPath roots parent defined))
include hloader

theorem lookup_of_link {file : ClassFile} (h : linkWithin n id file w = some (.ok c, w₁)) :
    ∃ defined₁, w₁.loader? id = some (.classPath roots parent defined₁) ∧
      defined₁.lookup file.name = some c := by
  rcases n with _ | n
  · cases h
  rcases link_cases h with ⟨superclass, w', hr, rfl, hsuper⟩ | ⟨_, _, hr, -⟩
  · cases hr
    rcases hsuper with ⟨-, -, rfl⟩ | ⟨_, _, -, -, hload⟩
    · exact lookup_defineIn hloader
    · obtain ⟨_, hloader'⟩ := Defines.classPath ((defines_of_search n).1 _ _ _ _ _ hload) hloader
      exact lookup_defineIn hloader'
  · cases hr

theorem lookup_of_find (h : findWithin n id name w = some (.ok (some c), w₁)) :
    ∃ defined₁, w₁.loader? id = some (.classPath roots parent defined₁) ∧
      defined₁.lookup name = some c := by
  rcases n with _ | n
  · cases h
  rw [findWithin_succ, hloader] at h
  dsimp only at h
  split at h
  next hlookup =>
    cases h
    exact ⟨defined, hloader, hlookup⟩
  next =>
    split at h
    next => cases h
    next => cases h
    next file hread =>
      obtain ⟨-, -, -, -, rfl, -⟩ := exists_read_of_readClassFile hread
      split at h
      next => cases h
      next hlink =>
        cases h
        exact lookup_of_link hloader hlink
      next => cases h

theorem lookup_of_define {file : ClassFile} (h : defineWithin n id file w = some (.ok c, w₁)) :
    ∃ defined₁, w₁.loader? id = some (.classPath roots parent defined₁) ∧
      defined₁.lookup file.name = some c := by
  rw [defineWithin_apply, hloader, Option.bind_some, Loader.defined] at h
  split at h
  next hlookup =>
    cases h
    exact ⟨defined, hloader, hlookup⟩
  next =>
    split at h
    next => cases h
    next => exact lookup_of_link hloader h

/-- A class path loader has loaded a class either from its parent or by finding it. -/
theorem obtains_of_load (h : loadWithin n id name w = some (.ok c, w₁)) :
    ∃ defined₁, w₁.loader? id = some (.classPath roots parent defined₁) ∧
      w.Obtains parent defined₁ name c := by
  rcases n with _ | n
  · cases h
  have hown (hmissing : w.Inherits parent name (.error (.classNotFound name)))
      (h : ownWithin n id name w = some (.ok c, w₁)) :
      ∃ defined₁, w₁.loader? id = some (.classPath roots parent defined₁) ∧
        w.Obtains parent defined₁ name c := by
    obtain ⟨e | _ | c', hfind, hr⟩ := own_cases h
    · cases hr
    · cases hr
    · cases hr
      obtain ⟨defined₁, hloader₁, hlookup⟩ := lookup_of_find hloader hfind
      exact ⟨defined₁, hloader₁, _, hmissing, .inr ⟨rfl, hlookup⟩⟩
  have hparent : (w.loader? id).bind (·.parent?) = parent := by rw [hloader]; rfl
  rcases load_cases h with ⟨p, hp, hrun, -⟩ | ⟨hp, hrun⟩ | ⟨p, _, w', hp, hmissing, hrun⟩
  · obtain rfl : parent = some p := hparent.symm.trans hp
    obtain ⟨defined₁, hloader₁⟩ := Defines.classPath ((defines_of_search n).1 _ _ _ _ _ hrun) hloader
    exact ⟨defined₁, hloader₁, _, ⟨w₁, n, hrun⟩, .inl rfl⟩
  · obtain rfl : parent = none := hparent.symm.trans hp
    exact hown rfl hrun
  · obtain rfl : parent = some p := hparent.symm.trans hp
    obtain ⟨rfl, rfl⟩ := (unchanged_of_search n).1 _ _ _ _ _ hmissing
    exact hown ⟨_, n, hmissing⟩ hrun

end Found

/-! ## What a call adds -/

/-- From the first world to the second, class path loaders keep their classes and get others, each
under a name of its own and with the superclass that loading gives in the first world. -/
def Adds (w w' : World) : Prop :=
  ∀ id roots parent defined, w.loader? id = some (.classPath roots parent defined) →
    ∃ added, w'.loader? id = some (.classPath roots parent (defined ++ added)) ∧
      ((defined.map Prod.fst).Nodup → ((defined ++ added).map Prod.fst).Nodup) ∧
      ∀ x ∈ added, x.2.MadeOf x.1 fun s superclass ↦
        (∃ w', w.Loads id s (.ok superclass, w')) ∧ w.Obtains parent (defined ++ added) s superclass

/-- Nothing is added where loaders stay as they are. -/
theorem Adds.of_loader? (h : ∀ id l, w.loader? id = some l → w₁.loader? id = some l) : w.Adds w₁ := by
  intro id roots parent defined hloader
  refine ⟨[], ?_, ?_, fun _ hx ↦ absurd hx List.not_mem_nil⟩
  · rw [List.append_nil]
    exact h _ _ hloader
  · rw [List.append_nil]
    exact fun hnodup ↦ hnodup

theorem Adds.refl (w : World) : w.Adds w := .of_loader? fun _ _ hloader ↦ hloader

/-- A definition adds a class if its superclass was loaded in the first world. -/
theorem Adds.defineIn {file : ClassFile} {superclass : Option Class} (h : w.Adds w₁)
    (hverify : file.verify = .ok ())
    (hsuper : ∀ roots parent defined, w.loader? id = some (.classPath roots parent defined) →
      ∃ defined₁, w₁.loader? id = some (.classPath roots parent defined₁) ∧
        file.superName.elim (superclass = none) fun s ↦ ∃ c, superclass = some c ∧
          (∃ w', w.Loads id s (.ok c, w')) ∧ w.Obtains parent defined₁ s c) :
    w.Adds (w₁.defineIn id file superclass).2 := by
  intro other roots parent defined hloader
  obtain ⟨added, hloader₁, hnodup, hmade⟩ := h other roots parent defined hloader
  rcases loader?_defineIn w₁ id file superclass other with
    heq | ⟨rfl, _, _, _, hloader', hlookup, hnew⟩
  · exact ⟨added, heq.trans hloader₁, hnodup, hmade⟩
  · cases hloader₁.symm.trans hloader'
    obtain ⟨defined₁, hdefined₁, hsuper⟩ := hsuper roots parent defined hloader
    cases hloader₁.symm.trans hdefined₁
    refine ⟨added ++ [(file.name, .compiled w₁.classCount file superclass)], ?_, fun hdefined ↦ ?_,
      fun x hx ↦ ?_⟩
    · rw [hnew, List.append_assoc]
    · rw [← List.append_assoc, List.map_append, List.nodup_append]
      refine ⟨hnodup hdefined, List.nodup_singleton _, fun a ha b hb ↦ ?_⟩
      obtain ⟨x, hx, rfl⟩ := List.mem_map.mp ha
      obtain rfl := List.mem_singleton.mp hb
      have hne := List.lookup_eq_none_iff.mp hlookup x hx
      exact fun heq ↦ by simp [heq] at hne
    · rw [← List.append_assoc]
      rcases List.mem_append.mp hx with hx | hx
      · exact (hmade x hx).mono fun s c ⟨hloads, hobtains⟩ ↦ ⟨hloads, hobtains.append _⟩
      · obtain rfl := List.mem_singleton.mp hx
        refine (Class.madeOf_compiled _ hverify hsuper).mono fun s c ⟨hloads, hobtains⟩ ↦ ?_
        exact ⟨hloads, hobtains.append _⟩

/-- Whatever a search defines on its way, it began in the world in which the search began. -/
theorem adds_of_search (n : Nat) :
    (∀ id name r w w', loadWithin n id name w = some (r, w') → w.Adds w') ∧
    (∀ id name r w w', findWithin n id name w = some (r, w') → w.Adds w') ∧
    ∀ id file r w w', file.verify = .ok () → linkWithin n id file w = some (r, w') → w.Adds w' := by
  induction n with
  | zero =>
    refine ⟨fun id name r w w' h ↦ ?_, fun id name r w w' h ↦ ?_, fun id file r w w' hverify h ↦ ?_⟩
    all_goals cases h
  | succ n ih =>
    obtain ⟨hload, hfind, hlink⟩ := ih
    have hown {id name r w w'} (h : ownWithin n id name w = some (r, w')) : w.Adds w' := by
      obtain ⟨found, hrun, -⟩ := own_cases h
      exact hfind _ _ _ _ _ hrun
    refine ⟨fun id name r w w' h ↦ ?_, fun id name r w w' h ↦ ?_, fun id file r w w' hverify h ↦ ?_⟩
    · rcases load_cases h with ⟨p, -, hrun, -⟩ | ⟨-, hrun⟩ | ⟨p, _, w₁, -, hmissing, hrun⟩
      · exact hload _ _ _ _ _ hrun
      · exact hown hrun
      · -- A parent that has not found the class has defined none, so `w₁` is `w`.
        obtain ⟨-, rfl⟩ := (unchanged_of_search n).1 _ _ _ _ _ hmissing
        exact hown hrun
    · rcases find_cases h with ⟨rfl, -⟩ | ⟨_, _, _, -, hrun, -⟩ | ⟨_, _, _, _, _, -, hread, hrun, -⟩
      · exact .refl _
      · exact hload _ _ _ _ _ hrun
      · obtain ⟨-, -, -, -, -, hverify⟩ := exists_read_of_readClassFile hread
        exact hlink _ _ _ _ _ hverify hrun
    · rcases link_cases h with ⟨superclass, w₁, -, rfl, hsuper⟩ | ⟨_, _, -, hrun⟩
      · rcases hsuper with ⟨hname, rfl, rfl⟩ | ⟨superName, c, hname, rfl, hrun⟩
        · refine (Adds.refl w₁).defineIn hverify fun roots parent defined hloader ↦ ?_
          refine ⟨defined, hloader, ?_⟩
          rw [hname]
          rfl
        · refine (hload _ _ _ _ _ hrun).defineIn hverify fun roots parent defined hloader ↦ ?_
          obtain ⟨defined₁, hloader₁, hobtains⟩ := obtains_of_load hloader hrun
          refine ⟨defined₁, hloader₁, ?_⟩
          rw [hname]
          exact ⟨c, rfl, ⟨w₁, n, hrun⟩, hobtains⟩
      · exact hload _ _ _ _ _ hrun

/-- A class is defined from memory only if none of the name is there and the file is well formed. -/
theorem eq_or_link_of_define {n : Nat} {file : ClassFile} {r : Except LoadError Class}
    (h : defineWithin n id file w = some (r, w₁)) :
    w₁ = w ∨ file.verify = .ok () ∧ linkWithin n id file w = some (r, w₁) := by
  rw [defineWithin_apply] at h
  split at h
  next =>
    cases h
    exact .inl rfl
  next =>
    split at h
    next =>
      cases h
      exact .inl rfl
    next hverify => exact .inr ⟨hverify, h⟩

/-! ## Histories -/

/-- What can happen to a world: any loader is called, a loader is made that asks earlier ones, and
the files change. -/
inductive Event : World → World → Prop
  | load (w : World) (id : LoaderId) (name : String) : Event w (w.load id name).2
  | find (w : World) (id : LoaderId) (name : String) : Event w (w.find id name).2
  | defineClass (w : World) (id : LoaderId) (file : ClassFile) : Event w (w.defineClass id file).2
  | addLoader (w : World) (l : Loader) (hl : ∀ other ∈ l.asks, other < w.loaders.size) :
    Event w (w.addLoader l).2
  | files (w : World) (files : FileTree) : Event w { w with files }

/-- The second world has come of the first by any number of events. -/
def History : World → World → Prop := ReflTransGen Event

/-- What every search that ends has, and a world in which one was given up, the world after a call
has. -/
theorem search_induction {α : Type} {P : World → Prop} {op : Nat → LoadM α}
    (hop : ∀ n r w', op n w = some (r, w') → P w') (hendless : P { w with endless := true }) :
    P (w.search op).2 := by
  rw [search]
  split
  next hrun => exact hop _ _ _ hrun
  next => exact hendless

/-- A call that fails leaves the loaders as they are, if the search inside leaves the world so. -/
theorem loaders_of_search_error {α : Type} {op : Nat → LoadM α} {e : LoadError}
    (hop : ∀ n e w', op n w = some (.error e, w') → w' = w) (h : (w.search op).1 = .error e) :
    (w.search op).2.loaders = w.loaders := by
  rw [search] at h ⊢
  split at h
  next r w' hrun =>
    obtain rfl : r = .error e := h
    rw [hop _ _ _ hrun]
  next => rfl

/-- What every definition, every new loader and every change of the files keeps, an event keeps. -/
theorem Event.keeps {P : World → Prop} (hdefines : ∀ w w', Defines w w' → P w → P w')
    (hendless : ∀ w, P w → P { w with endless := true })
    (haddLoader : ∀ w l, (∀ other ∈ l.asks, other < w.loaders.size) → P w → P (w.addLoader l).2)
    (hfiles : ∀ w files, P w → P { w with files }) (h : Event w w₁) (hw : P w) : P w₁ := by
  have hsearched {w' : World} (hsearch : ReflTransGen Defines w w') : P w' :=
    keeps_of_steps hdefines hsearch hw
  cases h with
  | load id name =>
    refine search_induction (fun n _ _ hrun ↦ hsearched ?_) (hendless w hw)
    exact (defines_of_search n).1 _ _ _ _ _ hrun
  | find id name =>
    refine search_induction (fun n _ _ hrun ↦ hsearched ?_) (hendless w hw)
    exact (defines_of_search n).2.1 _ _ _ _ _ hrun
  | defineClass id file =>
    refine search_induction (fun n _ _ hrun ↦ ?_) (hendless w hw)
    rcases eq_or_link_of_define hrun with rfl | ⟨-, hlink⟩
    · exact hw
    · exact hsearched ((defines_of_search n).2.2 _ _ _ _ _ hlink)
  | addLoader l hl => exact haddLoader w l hl hw
  | files files => exact hfiles w files hw

theorem Event.adds (h : Event w w₁) : w.Adds w₁ := by
  have hendless : w.Adds { w with endless := true } := .of_loader? fun _ _ hloader ↦ hloader
  cases h with
  | load id name =>
    exact search_induction (fun n _ _ hrun ↦ (adds_of_search n).1 _ _ _ _ _ hrun) hendless
  | find id name =>
    exact search_induction (fun n _ _ hrun ↦ (adds_of_search n).2.1 _ _ _ _ _ hrun) hendless
  | defineClass id file =>
    refine search_induction (fun n _ _ hrun ↦ ?_) hendless
    rcases eq_or_link_of_define hrun with rfl | ⟨hverify, hlink⟩
    · exact .refl _
    · exact (adds_of_search n).2.2 _ _ _ _ _ hverify hlink
  | addLoader l hl =>
    refine .of_loader? fun id l' hloader ↦ ?_
    rw [loader?_addLoader_of_lt l (lt_size_of_loader? hloader), hloader]
  | files files => exact .of_loader? fun _ _ hloader ↦ hloader

theorem History.keeps {P : World → Prop} (hdefines : ∀ w w', Defines w w' → P w → P w')
    (hendless : ∀ w, P w → P { w with endless := true })
    (haddLoader : ∀ w l, (∀ other ∈ l.asks, other < w.loaders.size) → P w → P (w.addLoader l).2)
    (hfiles : ∀ w files, P w → P { w with files }) (h : w.History w₁) (hw : P w) : P w₁ :=
  keeps_of_steps (fun _ _ hevent ↦ hevent.keeps hdefines hendless haddLoader hfiles) h hw

theorem History.ordered (h : w.History w₁) (hw : w.Ordered) : w₁.Ordered :=
  h.keeps (fun _ _ hdefine hw ↦ hw.defines (.single hdefine)) (fun _ hw ↦ hw)
    (fun _ _ hl hw ↦ hw.addLoader hl) (fun _ files hw ↦ hw.withFiles files) hw

/-- Each class that a class path loader has got in a history was made by a call in it. -/
theorem History.adds (h : w.History w₁)
    (hloader : w.loader? id = some (.classPath roots parent defined)) :
    ∃ added, w₁.loader? id = some (.classPath roots parent (defined ++ added)) ∧
      ((defined.map Prod.fst).Nodup → ((defined ++ added).map Prod.fst).Nodup) ∧
      ∀ x ∈ added, ∃ w', w.History w' ∧ w'.History w₁ ∧ x.2.MadeOf x.1 fun s superclass ↦
        (∃ w'', w'.Loads id s (.ok superclass, w'')) ∧
          w'.Obtains parent (defined ++ added) s superclass := by
  induction h with
  | refl =>
    refine ⟨[], ?_, ?_, fun _ hx ↦ absurd hx List.not_mem_nil⟩
    · rw [List.append_nil]
      exact hloader
    · rw [List.append_nil]
      exact fun hnodup ↦ hnodup
  | tail hhistory hevent ih =>
    rename_i w₁ w₂
    obtain ⟨added, hloader₁, hnodup, hmade⟩ := ih
    obtain ⟨more, hloader₂, hnodup', hmade'⟩ := hevent.adds _ _ _ _ hloader₁
    refine ⟨added ++ more, ?_, ?_, fun x hx ↦ ?_⟩
    · rw [← List.append_assoc]
      exact hloader₂
    · rw [← List.append_assoc]
      exact fun hdefined ↦ hnodup' (hnodup hdefined)
    · rw [← List.append_assoc]
      rcases List.mem_append.mp hx with hx | hx
      · obtain ⟨w', hbefore, hafter, hx⟩ := hmade x hx
        refine ⟨w', hbefore, hafter.tail hevent, hx.mono fun s c ⟨hloads, hobtains⟩ ↦ ?_⟩
        exact ⟨hloads, hobtains.append more⟩
      · exact ⟨w₁, hhistory, .single hevent, hmade' x hx⟩

/-! ## The classes of a loader -/

theorem exists_searchDepth_eq (w : World) : ∃ n, w.searchDepth = n + 1 := by
  refine ⟨w.searchDepth - 1, (Nat.sub_add_cancel ?_).symm⟩
  rw [searchDepth]
  exact Nat.mul_pos (by omega) (Nat.succ_pos _)

section Stored

variable (hloader : w.loader? id = some (.classPath roots parent defined))
include hloader

/-- A class that is kept is found again. -/
theorem find_of_lookup (hlookup : defined.lookup name = some c) :
    w.find id name = (.ok (some c), w) := by
  obtain ⟨n, hn⟩ := w.exists_searchDepth_eq
  rw [find, search, hn, findWithin_succ, hloader]
  dsimp only
  rw [hlookup]

/-- A class that is kept is defined again. -/
theorem defineClass_of_lookup {file : ClassFile} (hlookup : defined.lookup file.name = some c) :
    w.defineClass id file = (.ok c, w) := by
  rw [defineClass, search, defineWithin_apply, hloader, Option.bind_some, Loader.defined, hlookup]

theorem lookup_of_find_eq (h : w.find id name = (.ok (some c), w₁)) :
    ∃ defined₁, w₁.loader? id = some (.classPath roots parent defined₁) ∧
      defined₁.lookup name = some c := by
  rw [find, search] at h
  split at h
  next hrun =>
    cases h
    exact lookup_of_find hloader hrun
  next => cases h

theorem lookup_of_defineClass_eq {file : ClassFile} (h : w.defineClass id file = (.ok c, w₁)) :
    ∃ defined₁, w₁.loader? id = some (.classPath roots parent defined₁) ∧
      defined₁.lookup file.name = some c := by
  rw [defineClass, search] at h
  split at h
  next hrun =>
    cases h
    exact lookup_of_define hloader hrun
  next => cases h

end Stored

theorem Obtains.of_inherits (h : w.Obtains parent defined name c)
    (hinherits : ∀ r, w.Inherits parent name r → w₁.Inherits parent name r) :
    w₁.Obtains parent defined name c := by
  obtain ⟨r, hr, hfound⟩ := h
  exact ⟨r, hinherits r hr, hfound⟩

theorem Obtains.load (h : w.Obtains parent defined name c) (hw : w.Ordered)
    (hloader : w.loader? id = some (.classPath roots parent defined)) :
    ∃ w', w.load id name = (.ok c, w') := by
  obtain ⟨w', hloads⟩ := h.loads hloader
  exact ⟨w', load_of_loads hw (lt_size_of_loader? hloader) hloads⟩

/-- The classes of a class path loader after any history. There is one for each name, they are kept
whatever happens next, and finding or defining a name for which a class was given gives that class
again. Each was made of a verified file of its name, and its superclass is the one that was loaded
in the world in which the call began that made it; it is loaded again as long as the parent answers
for its name as it did then. A call that fails defines nothing. -/
theorem classes_of_history {w₀ : World} (hw₀ : w₀.Ordered)
    (hloader₀ : w₀.loader? id = some (.classPath roots parent [])) (hrun : w₀.History w) :
    ∃ defined, w.loader? id = some (.classPath roots parent defined) ∧
      (defined.map Prod.fst).Nodup ∧
      (∀ w₂, w.History w₂ →
        ∃ added, w₂.loader? id = some (.classPath roots parent (defined ++ added))) ∧
      (∀ name c w₁, (w.find id name = (.ok (some c), w₁) ∨
          ∃ file, file.name = name ∧ w.defineClass id file = (.ok c, w₁)) →
        ∀ w₂, w₁.History w₂ → w₂.find id name = (.ok (some c), w₂) ∧
          ∀ file, file.name = name → w₂.defineClass id file = (.ok c, w₂)) ∧
      (∀ x ∈ defined, ∃ w₁, w₀.History w₁ ∧ w₁.History w ∧ x.2.MadeOf x.1 fun s superclass ↦
        (∃ w', w₁.load id s = (.ok superclass, w')) ∧
          ∀ w₂, w.History w₂ → (∀ r, w₁.Inherits parent s r → w₂.Inherits parent s r) →
            ∃ w', w₂.load id s = (.ok superclass, w')) ∧
      ∀ e, (∀ name, (w.load id name).1 = .error e → (w.load id name).2.loaders = w.loaders) ∧
        (∀ name, (w.find id name).1 = .error e → (w.find id name).2.loaders = w.loaders) ∧
        ∀ file, (w.defineClass id file).1 = .error e →
          (w.defineClass id file).2.loaders = w.loaders := by
  obtain ⟨defined, hloader, hnodup, hmade⟩ := hrun.adds hloader₀
  rw [List.nil_append] at hloader hnodup hmade
  have hkept : ∀ w₂, w.History w₂ →
      ∃ added, w₂.loader? id = some (.classPath roots parent (defined ++ added)) := by
    intro w₂ hlater
    obtain ⟨added, hloader₂, -, -⟩ := hlater.adds hloader
    exact ⟨added, hloader₂⟩
  refine ⟨defined, hloader, hnodup .nil, hkept, fun name c w₁ hgiven w₂ hlater ↦ ?_, fun x hx ↦ ?_,
    fun e ↦ ⟨fun name ↦ ?_, fun name ↦ ?_, fun file ↦ ?_⟩⟩
  · obtain ⟨defined₁, hloader₁, hlookup⟩ : ∃ defined₁,
        w₁.loader? id = some (.classPath roots parent defined₁) ∧ defined₁.lookup name = some c := by
      rcases hgiven with hfind | ⟨file, rfl, hdefine⟩
      · exact lookup_of_find_eq hloader hfind
      · exact lookup_of_defineClass_eq hloader hdefine
    obtain ⟨added, hloader₂, -, -⟩ := hlater.adds hloader₁
    have hlookup₂ : (defined₁ ++ added).lookup name = some c := by
      rw [List.lookup_append, hlookup, Option.some_or]
    refine ⟨find_of_lookup hloader₂ hlookup₂, fun file hfile ↦ ?_⟩
    exact defineClass_of_lookup hloader₂ (hfile ▸ hlookup₂)
  · obtain ⟨w₁, hbefore, hafter, hx⟩ := hmade x hx
    -- The class was made in `w₁`; what is obtained there from the parent or from the classes of the
    -- loader is obtained later, since the classes are kept and the parent answers as before.
    refine ⟨w₁, hbefore, hafter, hx.mono fun s superclass ⟨⟨w', hloads⟩, hobtains⟩ ↦ ⟨⟨w', ?_⟩, ?_⟩⟩
    · obtain ⟨_, hloader₁, -, -⟩ := hbefore.adds hloader₀
      exact load_of_loads (hbefore.ordered hw₀) (lt_size_of_loader? hloader₁) hloads
    · intro w₂ hlater hinherits
      obtain ⟨added, hloader₂⟩ := hkept w₂ hlater
      have hw₂ := hlater.ordered (hrun.ordered hw₀)
      exact ((hobtains.append added).of_inherits hinherits).load hw₂ hloader₂
  · exact loaders_of_search_error fun n _ _ h ↦ (eq_of_search_error n).1 _ _ _ _ _ h
  · exact loaders_of_search_error fun n _ _ h ↦ (eq_of_search_error n).2.1 _ _ _ _ _ h
  · refine loaders_of_search_error fun n _ _ h ↦ ?_
    rcases eq_or_link_of_define h with rfl | ⟨-, hlink⟩
    · rfl
    · exact (eq_of_search_error n).2.2 _ _ _ _ _ hlink

/-! A class that is found on the class path once, before the files are gone. -/

def foundFile : ClassFile := .empty "B" (some scriptClassName)

def withFile : World :=
  let (system, w) := World.start []
  let files := ((FileTree.writeBelow ⟨"/c/B.class"⟩ foundFile.encode).run {}).2
  ({ w with files }.addClassPath [⟨"/c"⟩] (some system)).2

theorem find_withFile : ((withFile.find 1 "B").1.toOption.bind fun c ↦ c).isSome = true := by
  decide +kernel

/-- The class is found without its file, and a file of the same name does not take its place. -/
theorem found_class_is_kept :
    (withFile.Ordered ∧ withFile.loader? 1 = some (.classPath [⟨"/c"⟩] (some 0) []) ∧
      withFile.History withFile) ∧
    ∃ c w₁, withFile.find 1 "B" = (.ok (some c), w₁) ∧
      { w₁ with files := {} }.find 1 "B" = (.ok (some c), { w₁ with files := {} }) ∧
      { w₁ with files := {} }.defineClass 1 (.empty "B" none) = (.ok c, { w₁ with files := {} }) := by
  have hordered : withFile.Ordered := ((ordered_start []).withFiles _).addLoader (by decide)
  have hloader : withFile.loader? 1 = some (.classPath [⟨"/c"⟩] (some 0) []) := rfl
  refine ⟨⟨hordered, hloader, .refl⟩, ?_⟩
  obtain ⟨_, -, -, -, hagain, -⟩ := classes_of_history hordered hloader .refl
  have hfind := find_withFile
  rcases heq : withFile.find 1 "B" with ⟨_ | _ | c, w₁⟩
  · rw [heq] at hfind
    cases hfind
  · rw [heq] at hfind
    cases hfind
  · have hkept := hagain "B" c w₁ (.inl heq) { w₁ with files := {} } (.single (.files w₁ {}))
    exact ⟨c, w₁, rfl, hkept.1, hkept.2 _ rfl⟩

end World

end BuildScript
