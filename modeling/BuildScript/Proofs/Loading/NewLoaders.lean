import BuildScript.Loading.Cache
import BuildScript.Proofs.Loading.Searches

/-!
# New loaders

A loader asks only earlier ones, so what a search finds does not change when a loader is added to the
world, and neither does it depend on the bound of the search once that was large enough.
`later_of_search` says both at once, because a world with one more loader is searched with a larger
bound. From this follows what `World.load_newClassPath` says about a new class path loader: it loads
a class that its parent does not have from the class file, and the superclass through the parent.
-/

namespace BuildScript

open Relation

/-! ## The order of loaders -/

/-- The loaders that a loader asks. -/
def Loader.asks : Loader → List LoaderId
  | .system _ => []
  | .classPath _ parent _ => parent.toList
  | .filtering delegate _ => [delegate]

theorem Loader.mem_asks_of_parent? {l : Loader} {parent : LoaderId} (h : l.parent? = some parent) :
    parent ∈ l.asks := by
  cases l with
  | classPath roots p defined => exact Option.mem_toList.mpr h
  | system classes => cases h
  | filtering delegate filter => cases h

namespace World

variable {w w' : World} {id : LoaderId} {l : Loader}

/-- Loaders ask only earlier ones. -/
def Ordered (w : World) : Prop := ∀ id l, w.loader? id = some l → ∀ other ∈ l.asks, other < id

theorem lt_size_of_loader? (h : w.loader? id = some l) : id < w.loaders.size :=
  (Array.getElem?_eq_some_iff.mp h).1

theorem loader?_addLoader_of_lt (l : Loader) (hid : id < w.loaders.size) :
    (w.addLoader l).2.loader? id = w.loader? id := by
  change (w.loaders.push l)[id]? = w.loaders[id]?
  rw [Array.getElem?_push, if_neg (Nat.ne_of_lt hid)]

theorem loader?_addLoader_self (w : World) (l : Loader) :
    (w.addLoader l).2.loader? (w.addLoader l).1 = some l := by
  change (w.loaders.push l)[w.loaders.size]? = some l
  rw [Array.getElem?_push, if_pos rfl]

/-! ### Definitions keep the order -/

/-- A definition changes at most the classes that the loader has. -/
theorem defineIn_eq (w : World) (id : LoaderId) (file : ClassFile) (superclass : Option Class) :
    w.defineIn id file superclass =
      let made := Class.compiled w.classCount file superclass
      let counted := { w with classCount := w.classCount + 1 }
      match w.loader? id with
      | some (.classPath roots parent defined) =>
        match defined.lookup file.name with
        | some existing => (existing, counted)
        | none =>
          let loader := Loader.classPath roots parent (defined ++ [(file.name, made)])
          (made, { counted with loaders := w.loaders.setIfInBounds id loader })
      | _ => (made, counted) := rfl

theorem size_defineIn (w : World) (id : LoaderId) (file : ClassFile) (superclass : Option Class) :
    (w.defineIn id file superclass).2.loaders.size = w.loaders.size := by
  rw [defineIn_eq]
  dsimp only
  split
  · split
    · rfl
    · exact Array.size_setIfInBounds
  · rfl

theorem asks_defineIn (w : World) (id : LoaderId) (file : ClassFile) (superclass : Option Class)
    (other : LoaderId) :
    ((w.defineIn id file superclass).2.loader? other).map Loader.asks =
      (w.loader? other).map Loader.asks := by
  rw [defineIn_eq]
  dsimp only
  split
  next roots parent defined hloader =>
    split
    · rfl
    · change (w.loaders.setIfInBounds id _)[other]?.map _ = _
      rw [Array.getElem?_setIfInBounds]
      split
      next heq => rw [← heq, hloader, if_pos (lt_size_of_loader? hloader)]; rfl
      next => rfl
  · rfl

theorem Defines.size_eq (h : ReflTransGen Defines w w') : w'.loaders.size = w.loaders.size :=
  keeps_of_steps (P := fun s ↦ s.loaders.size = w.loaders.size)
    (fun s s' hstep hs ↦ by
      obtain ⟨id, file, superclass⟩ := hstep
      rw [size_defineIn, hs]) h rfl

theorem Ordered.defines (hw : w.Ordered) (h : ReflTransGen Defines w w') : w'.Ordered := by
  refine keeps_of_steps (P := Ordered) (fun s s' hstep hs other l hl ↦ ?_) h hw
  obtain ⟨id, file, superclass⟩ := hstep
  have hasks := asks_defineIn s id file superclass other
  rw [hl, Option.map_some, eq_comm, Option.map_eq_some_iff] at hasks
  obtain ⟨l', hl', hasks⟩ := hasks
  rw [← hasks]
  exact hs other l' hl'

/-- Loaders do not depend on the files. -/
theorem Ordered.withFiles (hw : w.Ordered) (files : FileTree) : { w with files }.Ordered := hw

theorem keptByLoading_ordered : KeptByLoading Ordered :=
  keptByLoading_of_defines (fun _ _ hdefines hw ↦ hw.defines hdefines) fun _ hw ↦ hw

theorem Ordered.addLoader (hw : w.Ordered) (hl : ∀ other ∈ l.asks, other < w.loaders.size) :
    (w.addLoader l).2.Ordered := by
  intro id l' hl' other hother
  have hid : id < w.loaders.size + 1 := by
    have := lt_size_of_loader? hl'
    rwa [World.addLoader, Array.size_push] at this
  rcases Nat.lt_succ_iff_lt_or_eq.mp hid with hlt | rfl
  · rw [loader?_addLoader_of_lt l hlt] at hl'
    exact hw id l' hl' other hother
  · cases (loader?_addLoader_self w l).symm.trans hl'
    exact hl other hother

/-- The loader of the platform asks none. -/
theorem ordered_start (natives : List NativeClass) : (start natives).2.Ordered :=
  Ordered.addLoader (fun _ _ hl ↦ by cases hl) fun _ hother ↦ absurd hother List.not_mem_nil

/-- A definition in an earlier loader does not see a later one. -/
theorem defineIn_addLoader (l : Loader) (hid : id < w.loaders.size) (file : ClassFile)
    (superclass : Option Class) :
    (w.addLoader l).2.defineIn id file superclass =
      ((w.defineIn id file superclass).1, ((w.defineIn id file superclass).2.addLoader l).2) := by
  rw [defineIn_eq, defineIn_eq, loader?_addLoader_of_lt l hid]
  rcases w.loader? id with _ | classes | ⟨roots, parent, defined⟩ | ⟨delegate, filter⟩
  · rfl
  · rfl
  · dsimp only
    rcases defined.lookup file.name with _ | existing
    · have hpush (x : Loader) : (w.loaders.push l).setIfInBounds id x =
          (w.loaders.setIfInBounds id x).push l := by
        have hid' : id < (w.loaders.push l).size := by
          rw [Array.size_push]
          exact Nat.lt_succ_of_lt hid
        rw [Array.setIfInBounds, Array.setIfInBounds, dif_pos hid, dif_pos hid', Array.set_push,
          dif_pos hid]
      dsimp only [addLoader]
      rw [hpush]
    · rfl
  · rfl

end World

/-! ## Bounds and later loaders -/

/-- What a search finds is found again if there is one more loader, perhaps by another search. -/
def Later {α : Type} (l : Loader) (search search' : LoadM α) (w : World) : Prop :=
  ∀ r w', search w = some (r, w') → search' (w.addLoader l).2 = some (r, (w'.addLoader l).2)

/-- Searches in earlier loaders find the same in both ways of searching. -/
structure LaterAll (l : Loader) (n m : Nat) : Prop where
  load : ∀ {w : World} {id}, w.Ordered → id < w.loaders.size → ∀ name,
    Later l (loadWithin n id name) (loadWithin m id name) w
  find : ∀ {w : World} {id}, w.Ordered → id < w.loaders.size → ∀ name,
    Later l (findWithin n id name) (findWithin m id name) w
  link : ∀ {w : World} {id}, w.Ordered → id < w.loaders.size → ∀ file,
    Later l (linkWithin n id file) (linkWithin m id file) w

namespace LaterAll

variable {l : Loader} {n m : Nat} {w : World} {id : LoaderId}

theorem own (h : LaterAll l n m) (hw : w.Ordered) (hid : id < w.loaders.size) (name : String) :
    Later l (ownWithin n id name) (ownWithin m id name) w := by
  intro r w' hrun
  rw [ownWithin] at hrun ⊢
  split at hrun
  · cases hrun
  all_goals
    next hfind =>
      cases hrun
      rw [h.find hw hid name _ _ hfind]

theorem load_succ (h : LaterAll l n m) (hw : w.Ordered) (hid : id < w.loaders.size) (name : String) :
    Later l (loadWithin (n + 1) id name) (loadWithin (m + 1) id name) w := by
  intro r w' hrun
  rw [loadWithin_succ] at hrun ⊢
  rw [World.loader?_addLoader_of_lt l hid]
  cases hparent : (w.loader? id).bind (·.parent?) with
  | none =>
    rw [hparent] at hrun
    exact h.own hw hid name _ _ hrun
  | some parent =>
    rw [hparent, Option.elim_some] at hrun
    rw [Option.elim_some]
    obtain ⟨l', hl', hl'parent⟩ := Option.bind_eq_some_iff.mp hparent
    have hlt : parent < id := hw id l' hl' parent (Loader.mem_asks_of_parent? hl'parent)
    have hload := h.load hw (Nat.lt_trans hlt hid) name
    split at hrun
    next hmissing =>
      -- What the loader has itself is looked for in the world that the search of the parent has left.
      have hdefines := (defines_of_search n).1 _ _ _ _ _ hmissing
      rw [hload _ _ hmissing]
      exact h.own (hw.defines hdefines) (by rwa [World.Defines.size_eq hdefines]) name _ _ hrun
    next hother =>
      rw [hload _ _ hrun]
      rcases r with e | c
      · cases e with
        | classNotFound other => exact (hother other w' hrun).elim
        | io | malformed | verify | nameMismatch | incompatibleClass | missingSuperclass => rfl
      · rfl

theorem find_succ (h : LaterAll l n m) (hw : w.Ordered) (hid : id < w.loaders.size) (name : String) :
    Later l (findWithin (n + 1) id name) (findWithin (m + 1) id name) w := by
  intro r w' hrun
  have hfiles : (w.addLoader l).2.files = w.files := rfl
  rw [findWithin_succ] at hrun ⊢
  rw [World.loader?_addLoader_of_lt l hid, hfiles]
  rcases hl : w.loader? id with _ | classes | ⟨roots, parent, defined⟩ | ⟨delegate, filter⟩
  · rw [hl] at hrun
    cases hrun
    rfl
  · rw [hl] at hrun
    cases hrun
    rfl
  · rw [hl] at hrun
    dsimp only at hrun ⊢
    rcases hknown : defined.lookup name with _ | c
    · rw [hknown] at hrun
      dsimp only at hrun ⊢
      rcases hread : readClassFile w.files name roots with e | _ | file
      · rw [hread] at hrun
        cases hrun
        rfl
      · rw [hread] at hrun
        cases hrun
        rfl
      · rw [hread] at hrun
        dsimp only at hrun ⊢
        split at hrun
        · cases hrun
        all_goals
          next hlink =>
            cases hrun
            rw [h.link hw hid file _ _ hlink]
    · rw [hknown] at hrun
      cases hrun
      rfl
  · rw [hl] at hrun
    dsimp only at hrun ⊢
    have hlt : delegate < id := hw id _ hl delegate List.mem_cons_self
    have hload := h.load hw (Nat.lt_trans hlt hid) name
    by_cases hallowed : filter.allows name = true
    · rw [if_pos hallowed] at hrun ⊢
      split at hrun
      next => cases hrun
      next hdelegate =>
        cases hrun
        rw [hload _ _ hdelegate]
      next hdelegate =>
        cases hrun
        rw [hload _ _ hdelegate]
      next e w₁ hother hdelegate =>
        cases hrun
        rw [hload _ _ hdelegate]
        cases e with
        | classNotFound other => exact (hother other rfl).elim
        | io | malformed | verify | nameMismatch | incompatibleClass | missingSuperclass => rfl
    · rw [if_neg hallowed] at hrun ⊢
      cases hrun
      rfl

theorem link_succ (h : LaterAll l n m) (hw : w.Ordered) (hid : id < w.loaders.size)
    (file : ClassFile) : Later l (linkWithin (n + 1) id file) (linkWithin (m + 1) id file) w := by
  intro r w' hrun
  rw [linkWithin_succ] at hrun ⊢
  split at hrun
  next =>
    cases hrun
    rw [World.defineIn_addLoader l hid]
  next superName _ =>
    have hload := h.load hw hid superName
    split at hrun
    next => cases hrun
    next c w₁ hsuper =>
      cases hrun
      have hdefines := (defines_of_search n).1 _ _ _ _ _ hsuper
      rw [hload _ _ hsuper]
      dsimp only
      rw [World.defineIn_addLoader l (by rwa [World.Defines.size_eq hdefines])]
    next hsuper =>
      cases hrun
      rw [hload _ _ hsuper]

end LaterAll

/-- Neither a larger bound nor a later loader changes what earlier loaders find. -/
theorem later_of_search (l : Loader) {n : Nat} : ∀ m, n ≤ m → LaterAll l n m := by
  induction n with
  | zero =>
    intro m _
    refine ⟨fun _ _ name r w' h ↦ ?_, fun _ _ name r w' h ↦ ?_, fun _ _ file r w' h ↦ ?_⟩
    all_goals cases h
  | succ n ih =>
    intro m hm
    obtain ⟨m, rfl⟩ : ∃ m', m = m' + 1 := ⟨m - 1, by omega⟩
    have h := ih m (Nat.le_of_succ_le_succ hm)
    exact ⟨h.load_succ, h.find_succ, h.link_succ⟩

/-! ## Searches that find nothing -/

theorem readClassFile_ne_classNotFound (files : FileTree) (name other : String) (roots : List Path) :
    readClassFile files name roots ≠ .error (.classNotFound other) := by
  induction roots with
  | nil =>
    intro h
    cases h
  | cons root roots ih =>
    intro h
    unfold readClassFile at h
    dsimp only at h
    split at h
    · exact ih h
    · cases h
    · next bytes _ =>
      rcases hdecode : ClassFile.decode bytes with e | file
      · rw [hdecode] at h
        cases h
      · rw [hdecode] at h
        change (if file.name != name then Except.error _ else _) = _ at h
        split at h
        · cases h
        · rcases hverify : file.verify with e | _
          · rw [hverify] at h
            cases h
          · rw [hverify] at h
            cases h

/-- A search that finds no class leaves the world as it is and repeats the name it was asked for. Own
classes are either found, or missing without an error, or there is another error. -/
theorem unchanged_of_search (n : Nat) :
    (∀ id name other w w', loadWithin n id name w = some (.error (.classNotFound other), w') →
      other = name ∧ w' = w) ∧
    (∀ id name w w', findWithin n id name w = some (.ok none, w') → w' = w) ∧
    (∀ id name other w w', findWithin n id name w ≠ some (.error (.classNotFound other), w')) ∧
    ∀ id file other w w', linkWithin n id file w ≠ some (.error (.classNotFound other), w') := by
  induction n with
  | zero =>
    refine ⟨fun _ _ _ _ _ h ↦ ?_, fun _ _ _ _ h ↦ ?_, fun _ _ _ _ _ h ↦ ?_, fun _ _ _ _ _ h ↦ ?_⟩
    all_goals cases h
  | succ n ih =>
    obtain ⟨hload, hfind, hfindError, hlink⟩ := ih
    have hown {id name other w w'}
        (h : ownWithin n id name w = some (.error (.classNotFound other), w')) :
        other = name ∧ w' = w := by
      obtain ⟨e | _ | c, hrun, hr⟩ := own_cases h
      · cases hr
        exact (hfindError _ _ _ _ _ hrun).elim
      · cases hr
        exact ⟨rfl, hfind _ _ _ _ hrun⟩
      · cases hr
    refine ⟨fun id name other w w' h ↦ ?_, fun id name w w' h ↦ ?_, fun id name other w w' h ↦ ?_,
      fun id file other w w' h ↦ ?_⟩
    · rcases load_cases h with ⟨p, -, -, hr⟩ | ⟨-, hrun⟩ | ⟨p, _, w₁, -, hmissing, hrun⟩
      · exact (hr other rfl).elim
      · exact hown hrun
      · obtain ⟨rfl, rfl⟩ := hown hrun
        exact ⟨rfl, (hload _ _ _ _ _ hmissing).2⟩
    · rcases find_cases h with ⟨rfl, -⟩ | ⟨_, _, r, -, hrun, hr⟩ | ⟨_, _, _, _, r, -, -, -, hr⟩
      · rfl
      · rcases r with e | c
        · cases e <;> cases hr
          exact (hload _ _ _ _ _ hrun).2
        · cases hr
      · cases r <;> cases hr
    · rcases find_cases h with ⟨-, hr⟩ | ⟨_, _, r, -, -, hr⟩ | ⟨_, _, _, _, r, -, -, hrun, hr⟩
      · obtain ⟨c, hr⟩ | ⟨roots, e, hread, hr⟩ := hr
        · cases hr
        · cases hr
          exact readClassFile_ne_classNotFound _ _ _ _ hread
      · rcases r with e | c
        · cases e <;> cases hr
        · cases hr
      · cases r <;> cases hr
        exact hlink _ _ _ _ _ hrun
    · rcases link_cases h with ⟨_, _, hr, -, -⟩ | ⟨_, _, hr, -⟩
      · cases hr
      · cases hr

/-! ## A new class path loader -/

namespace World

variable {w w₁ w₂ : World} {id : LoaderId} {name : String}

/-- A search that has ended was deep enough. The name is there to tell a class that is missing from a
search that was given up. -/
theorem loadWithin_of_load {r : Except LoadError Class} (h : w.load id name = (r, w₁))
    (hr : r ≠ .error (.classNotFound "")) : loadWithin w.searchDepth id name w = some (r, w₁) := by
  rw [load, search] at h
  split at h
  next r' w' hrun =>
    cases h
    exact hrun
  next =>
    cases h
    exact absurd rfl hr

theorem load_of_loadWithin {r : Except LoadError Class}
    (h : loadWithin w.searchDepth id name w = some (r, w₁)) : w.load id name = (r, w₁) := by
  rw [load, search, h]

/-- Only a loader that is there has classes. -/
theorem lt_size_of_loadWithin {n : Nat} {c : Class} (h : loadWithin n id name w = some (.ok c, w₁)) :
    id < w.loaders.size := by
  refine Nat.lt_of_not_le fun hid ↦ ?_
  have hnone : w.loader? id = none := Array.getElem?_eq_none hid
  cases n with
  | zero => cases h
  | succ n =>
    rw [loadWithin_succ, hnone, Option.bind_none, Option.elim_none, ownWithin] at h
    cases n with
    | zero => cases h
    | succ n =>
      rw [findWithin_succ, hnone] at h
      cases h

theorem searchDepth_addLoader (w : World) (l : Loader) :
    w.searchDepth + 8 ≤ (w.addLoader l).2.searchDepth := by
  have hsize : (w.addLoader l).2.loaders.size = w.loaders.size + 1 := Array.size_push ..
  have hfiles : (w.addLoader l).2.files = w.files := rfl
  rw [searchDepth, searchDepth, hsize, hfiles, Nat.add_right_comm w.loaders.size 1 2,
    Nat.mul_succ _ (w.loaders.size + 2)]
  omega

/-- A new class path loader makes the class of a file that its parent does not shadow. The superclass
is the one that the parent loads. -/
theorem load_newClassPath {roots : List Path} {parent : LoaderId} {file : ClassFile}
    {superName : String} {superclass : Class} (hw : w.Ordered) (hname : file.name ≠ "")
    (hmissing : (w.load parent file.name).1 = .error (.classNotFound file.name))
    (hread : readClassFile w.files file.name roots = .ok (some file))
    (hsuper : file.superName = some superName)
    (hload : w.load parent superName = (.ok superclass, w₁)) :
    ∃ w₂, (w.addClassPath roots (some parent)).2.load (w.addClassPath roots (some parent)).1
      file.name = (.ok (.compiled w₁.classCount file (some superclass)), w₂) := by
  obtain ⟨l, hl⟩ : ∃ l, l = Loader.classPath roots (some parent) [] := ⟨_, rfl⟩
  rw [addClassPath, ← hl]
  change ∃ w₂, (w.addLoader l).2.load w.loaders.size file.name = _
  obtain ⟨d, hd⟩ : ∃ d, (w.addLoader l).2.searchDepth = d + 5 ∧ w.searchDepth ≤ d + 1 := by
    have := w.searchDepth_addLoader l
    exact ⟨(w.addLoader l).2.searchDepth - 5, by omega, by omega⟩
  -- What the parent answers now is what it has answered before.
  have hnotFound : w.load parent file.name = (.error (.classNotFound file.name), w) := by
    rcases hrun : w.load parent file.name with ⟨r, w'⟩
    rw [hrun] at hmissing
    obtain rfl : r = .error (.classNotFound file.name) := hmissing
    have hne : (.error (.classNotFound file.name) : Except LoadError Class) ≠
        .error (.classNotFound "") := by simpa using hname
    rw [((unchanged_of_search _).1 _ _ _ _ _ (loadWithin_of_load hrun hne)).2]
  have hsuperRun := loadWithin_of_load hload (by simp)
  have hparent : parent < w.loaders.size := lt_size_of_loadWithin hsuperRun
  have hmissingRun := loadWithin_of_load hnotFound (by simpa using hname)
  have hmissing' := (later_of_search l (d + 4) (by omega)).load hw hparent _ _ _ hmissingRun
  have hsuper' := (later_of_search l (d + 1) (by omega)).load hw hparent _ _ _ hsuperRun
  have hsize := Defines.size_eq ((defines_of_search _).1 _ _ _ _ _ hsuperRun)
  have hfiles : (w.addLoader l).2.files = w.files := rfl
  have hloader : (w.addLoader l).2.loader? w.loaders.size =
      some (.classPath roots (some parent) []) := by
    rw [← hl]
    exact loader?_addLoader_self w l
  have hloader₁ : (w₁.addLoader l).2.loader? w.loaders.size =
      some (.classPath roots (some parent) []) := by
    rw [← hl, ← hsize]
    exact loader?_addLoader_self w₁ l
  have hlink : linkWithin (d + 3) w.loaders.size file (w.addLoader l).2 =
      some (.ok (.compiled w₁.classCount file (some superclass)),
        ((w₁.addLoader l).2.defineIn w.loaders.size file (some superclass)).2) := by
    rw [linkWithin_succ, hsuper]
    dsimp only
    rw [loadWithin_succ, hloader, Option.bind_some, Loader.parent?, Option.elim_some, hsuper']
    dsimp only
    rw [defineIn_eq, hloader₁]
    rfl
  refine ⟨((w₁.addLoader l).2.defineIn w.loaders.size file (some superclass)).2,
    load_of_loadWithin ?_⟩
  rw [hd.1, loadWithin_succ, hloader, Option.bind_some, Loader.parent?, Option.elim_some, hmissing']
  dsimp only
  rw [ownWithin, findWithin_succ, hloader]
  dsimp only
  rw [List.lookup_nil]
  dsimp only
  rw [hfiles, hread]
  dsimp only
  rw [hlink]

end World

/-! ## The cache -/

namespace LoaderCache

/-- No loader that is cached under the id will do. -/
def Lacks (cache : LoaderCache) (id : String) (spec : LoaderSpec) : Prop :=
  ∀ made loader, cache.entries.lookup id = some (made, loader) → made.same spec = false

variable {cache : LoaderCache} {id : String} {spec : LoaderSpec}

theorem Lacks.get (h : cache.Lacks id spec) (w : World) :
    ∃ cache', cache.get w id spec = ((create spec w).1, cache', (create spec w).2) := by
  rw [LoaderCache.get]
  dsimp only
  split
  next made loader hlookup =>
    rw [h made loader hlookup, if_neg Bool.false_ne_true]
    exact ⟨_, rfl⟩
  next => exact ⟨_, rfl⟩

theorem lookup_filter_self (entries : List (String × LoaderSpec × LoaderId)) (id : String) :
    (entries.filter (·.1 != id)).lookup id = none := by
  rw [List.lookup_eq_none_iff]
  intro x hx
  have hne : x.1 ≠ id := by simpa using (List.mem_filter.mp hx).2
  exact bne_iff_ne.mpr hne.symm

/-- A loader that was removed is not cached any more. -/
theorem lacks_remove (cache : LoaderCache) (id : String) (spec : LoaderSpec) :
    (cache.remove id).2.Lacks id spec := by
  intro made loader hlookup
  rw [remove] at hlookup
  dsimp only at hlookup
  rw [lookup_filter_self] at hlookup
  cases hlookup

end LoaderCache

end BuildScript
