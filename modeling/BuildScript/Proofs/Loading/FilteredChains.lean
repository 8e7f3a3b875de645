import BuildScript.Proofs.Loading.DefinedClasses

/-!
# Filters in chains of loaders

Loaders hand names on to other loaders in two ways: a class path loader asks its parent first, and a
filtering loader asks the loader behind it for the names that its filter allows. In a chain of both
that ends at the platform's loader, each name of the platform meets all filters on its way. If they
all allow it, the class that comes back is that of the platform, whatever the class paths below have.
If one does not, then what comes back, if anything, was made by a class path loader in front of that
filter.

Classes are told apart by their numbers. What the platform has was numbered before any class path
loader of the chain was made, and `Made` says that a class path loader has later classes only.
-/

namespace BuildScript

open Relation LoadM

namespace World

variable {w₀ w w₁ : World} {root id : LoaderId} {roots : List Path} {parent : Option LoaderId}
  {filters : List Filter} {classes : List (String × Class)} {bound : Nat} {name : String} {c : Class}

/-- The loader leads to the root by way of class path loaders, which were made without classes at some
time since `w₀`, and of filtering loaders, whose filters are listed, nearest first. -/
inductive Chain (w₀ w : World) (root : LoaderId) : LoaderId → List Filter → Prop
  | root : Chain w₀ w root root []
  | classPath {w₁ : World} {id parent : LoaderId} {roots : List Path} {filters : List Filter} :
    w₀.History w₁ → w₁.loader? id = some (.classPath roots (some parent) []) → w₁.History w →
      Chain w₀ w root parent filters → Chain w₀ w root id filters
  | filtering {id delegate : LoaderId} {filter : Filter} {filters : List Filter} :
    w.loader? id = some (.filtering delegate filter) →
      Chain w₀ w root delegate filters → Chain w₀ w root id (filter :: filters)

/-! ## The classes of class path loaders -/

/-- A class path loader has no classes that were made before number `bound`, and will not have any. -/
structure Made (bound : Nat) (id : LoaderId) (roots : List Path) (parent : Option LoaderId)
    (w : World) : Prop where
  le_classCount : bound ≤ w.classCount
  exists_defined : ∃ defined, w.loader? id = some (.classPath roots parent defined) ∧
    ∀ x ∈ defined, bound ≤ x.2.id

theorem classCount_defineIn (w : World) (id : LoaderId) (file : ClassFile)
    (superclass : Option Class) :
    (w.defineIn id file superclass).2.classCount = w.classCount + 1 := by
  rw [defineIn]
  dsimp only
  split
  · split <;> rfl
  · rfl

theorem Made.defines (h : Made bound id roots parent w) (hdefines : ReflTransGen Defines w w₁) :
    Made bound id roots parent w₁ := by
  refine keeps_of_steps (P := Made bound id roots parent) (fun s s' hstep hs ↦ ?_) hdefines h
  obtain ⟨other, file, superclass⟩ := hstep
  obtain ⟨hcount, defined, hloader, hids⟩ := hs
  refine ⟨by rw [classCount_defineIn]; omega, ?_⟩
  rcases loader?_defineIn s other file superclass id with heq | ⟨rfl, _, _, _, hs', -, hnew⟩
  · exact ⟨defined, heq.trans hloader, hids⟩
  · cases hloader.symm.trans hs'
    refine ⟨_, hnew, List.forall_mem_append.mpr ⟨hids, fun x hx ↦ ?_⟩⟩
    obtain rfl := List.mem_singleton.mp hx
    exact hcount

theorem Made.history (h : Made bound id roots parent w) (hrun : w.History w₁) :
    Made bound id roots parent w₁ := by
  refine hrun.keeps (fun s s' hstep hs ↦ hs.defines (.single hstep)) (fun s hs ↦ ⟨hs.1, hs.2⟩)
    (fun s l _ hs ↦ ?_) (fun s files hs ↦ ⟨hs.1, hs.2⟩) h
  obtain ⟨hcount, defined, hloader, hids⟩ := hs
  exact ⟨hcount, defined,
    (loader?_addLoader_of_lt l (lt_size_of_loader? hloader)).trans hloader, hids⟩

theorem History.le_classCount (h : w.History w₁) : w.classCount ≤ w₁.classCount := by
  refine h.keeps (P := fun s ↦ w.classCount ≤ s.classCount) (fun s s' hstep hs ↦ ?_)
    (fun _ hs ↦ hs) (fun _ _ _ hs ↦ hs) (fun _ _ hs ↦ hs) (Nat.le_refl _)
  obtain ⟨other, file, superclass⟩ := hstep
  rw [classCount_defineIn]
  omega

/-- A loader without classes has later ones only. -/
theorem made_of_history (hbefore : w₀.History w₁)
    (hloader : w₁.loader? id = some (.classPath roots parent [])) (hafter : w₁.History w) :
    Made w₀.classCount id roots parent w :=
  Made.history ⟨hbefore.le_classCount, [], hloader, fun _ hx ↦ absurd hx List.not_mem_nil⟩ hafter

theorem History.system (h : w.History w₁) (hroot : w.loader? root = some (.system classes)) :
    w₁.loader? root = some (.system classes) := by
  refine h.keeps (P := fun s ↦ s.loader? root = some (.system classes)) (fun s s' hstep hs ↦ ?_)
    (fun _ hs ↦ hs) (fun s l _ hs ↦ ?_) (fun _ _ hs ↦ hs) hroot
  · obtain ⟨other, file, superclass⟩ := hstep
    rcases loader?_defineIn s other file superclass root with heq | ⟨rfl, _, _, _, hs', -, -⟩
    · exact heq.trans hs
    · cases hs.symm.trans hs'
  · exact (loader?_addLoader_of_lt l (lt_size_of_loader? hs)).trans hs

theorem Chain.lt_size (hchain : Chain w₀ w root id filters)
    (hroot : w.loader? root = some (.system classes)) : id < w.loaders.size := by
  cases hchain with
  | root => exact lt_size_of_loader? hroot
  | classPath hbefore hloader hafter _ =>
    obtain ⟨_, hloader, -⟩ := (made_of_history hbefore hloader hafter).exists_defined
    exact lt_size_of_loader? hloader
  | filtering hloader _ => exact lt_size_of_loader? hloader

/-- The platform's classes are numbered below the first class that is made of a class file. -/
theorem id_lt_of_mem_defineNatives (natives : List NativeClass) (count : Nat)
    (h : ∀ x ∈ classes, x.2.id < count) :
    ∀ x ∈ (defineNatives natives count classes).2,
      x.2.id < (defineNatives natives count classes).1 := by
  induction natives generalizing count classes with
  | nil => exact h
  | cons n natives ih =>
    refine ih (count + 1) fun x hx ↦ ?_
    rcases List.mem_cons.mp hx with rfl | hx
    · exact Nat.lt_succ_self count
    · exact Nat.lt_succ_of_lt (h x (List.mem_of_mem_filter hx))

/-! ## Names that all filters allow -/

/-- A filtering loader answers as the loader behind it does, or has no class of the name. -/
theorem loadWithin_filtering {delegate : LoaderId} {filter : Filter}
    (hloader : w.loader? id = some (.filtering delegate filter)) (n : Nat) (name : String) :
    loadWithin (n + 2) id name w =
      if filter.allows name then
        match loadWithin n delegate name w with
        | some (.error (.classNotFound _), w') => some (.error (.classNotFound name), w')
        | outcome => outcome
      else some (.error (.classNotFound name), w) := by
  rw [loadWithin_succ, hloader, Option.bind_some, Loader.parent?, Option.elim_none, ownWithin,
    findWithin_succ, hloader]
  dsimp only
  cases filter.allows name with
  | false => rfl
  | true =>
    rcases loadWithin n delegate name w with _ | ⟨e | c, w'⟩
    · rfl
    · cases e <;> rfl
    · rfl

theorem Chain.loads (hchain : Chain w₀ w root id filters)
    (hroot : w.loader? root = some (.system classes)) (hlookup : classes.lookup name = some c)
    (hallows : ∀ filter ∈ filters, filter.allows name = true) : w.Loads id name (.ok c, w) := by
  induction hchain with
  | root =>
    have hloads := loads_system hroot name
    rwa [hlookup] at hloads
  | classPath hbefore hloader hafter _ ih =>
    obtain ⟨defined, hloader, -⟩ := (made_of_history hbefore hloader hafter).exists_defined
    obtain ⟨n, hload⟩ := ih hallows
    refine ⟨n + 1, ?_⟩
    rw [loadWithin_succ, hloader, Option.bind_some, Loader.parent?, Option.elim_some, hload]
  | filtering hloader _ ih =>
    rw [List.forall_mem_cons] at hallows
    obtain ⟨n, hload⟩ := ih hallows.2
    refine ⟨n + 2, ?_⟩
    rw [loadWithin_filtering hloader, if_pos hallows.1, hload]

/-! ## Names that a filter holds back -/

/-- What a class path loader finds itself was made late. -/
theorem Made.le_of_find (h : Made bound id roots parent w) {n : Nat}
    (hfind : findWithin n id name w = some (.ok (some c), w₁)) : bound ≤ c.id := by
  obtain ⟨defined, hloader, -⟩ := h.exists_defined
  obtain ⟨defined₁, hloader₁, hlookup⟩ := lookup_of_find hloader hfind
  obtain ⟨-, _, hloader₂, hids⟩ := h.defines ((defines_of_search n).2.1 _ _ _ _ _ hfind)
  cases hloader₁.symm.trans hloader₂
  obtain ⟨front, back, rfl, -⟩ := List.lookup_eq_some_iff.mp hlookup
  exact hids _ (List.mem_append_right _ List.mem_cons_self)

theorem Chain.le_of_load (hchain : Chain w₀ w root id filters)
    (hrejects : ∃ filter ∈ filters, filter.allows name = false) {n : Nat}
    (hload : loadWithin n id name w = some (.ok c, w₁)) : w₀.classCount ≤ c.id := by
  induction hchain generalizing n w₁ with
  | root =>
    obtain ⟨_, hmem, -⟩ := hrejects
    exact absurd hmem List.not_mem_nil
  | @classPath _ id _ _ _ hbefore hloader hafter _ ih =>
    rcases n with _ | n
    · cases hload
    have hmade := made_of_history hbefore hloader hafter
    obtain ⟨defined, hloader, -⟩ := hmade.exists_defined
    have hown {n : Nat} (h : ownWithin n id name w = some (.ok c, w₁)) : w₀.classCount ≤ c.id := by
      obtain ⟨e | _ | c', hfind, hr⟩ := own_cases h
      · cases hr
      · cases hr
      · cases hr
        exact hmade.le_of_find hfind
    rcases load_cases hload with ⟨p, hp, hrun, -⟩ | ⟨-, hrun⟩ | ⟨p, _, w', hp, hmissing, hrun⟩
    · rw [hloader] at hp
      cases hp
      exact ih hrejects hrun
    · exact hown hrun
    · -- A parent that has not found the class has left the world as it was.
      obtain ⟨-, rfl⟩ := (unchanged_of_search n).1 _ _ _ _ _ hmissing
      exact hown hrun
  | @filtering id delegate filter filters hloader _ ih =>
    rcases n with _ | _ | n
    · cases hload
    · rw [loadWithin_succ, hloader] at hload
      cases hload
    rw [loadWithin_filtering hloader] at hload
    split at hload
    · next hallows =>
      -- This filter lets the name pass, so it is another one that does not.
      have hrest : ∃ filter ∈ filters, filter.allows name = false := by
        obtain ⟨other, hmem, hreject⟩ := hrejects
        rcases List.mem_cons.mp hmem with rfl | hmem
        · rw [hallows] at hreject
          cases hreject
        · exact ⟨other, hmem, hreject⟩
      split at hload
      · cases hload
      · exact ih hrest hload
    · cases hload

/-- What loading a class of the platform gives at the front of a chain of loaders that ends at the
platform's loader. If all filters in the chain allow the name, it is the platform's own class, and
nothing changes. If one of them does not, then no class of the platform comes back, neither the one
of that name nor any other. -/
theorem platform_classes_through_filters (hw₀ : w₀.Ordered)
    (hroot : w₀.loader? root = some (.system classes))
    (hids : ∀ x ∈ classes, x.2.id < w₀.classCount) (hrun : w₀.History w)
    (hchain : Chain w₀ w root id filters) (hlookup : classes.lookup name = some c) :
    ((∀ filter ∈ filters, filter.allows name = true) → w.load id name = (.ok c, w)) ∧
    ((∃ filter ∈ filters, filter.allows name = false) →
      ∀ c', (w.load id name).1 = .ok c' → ∀ x ∈ classes, c'.id ≠ x.2.id) := by
  have hroot' := hrun.system hroot
  refine ⟨fun hallows ↦ ?_, fun hrejects c' hload x hx hsame ↦ ?_⟩
  · exact load_of_loads (hrun.ordered hw₀) (hchain.lt_size hroot')
      (hchain.loads hroot' hlookup hallows)
  · rw [load, search] at hload
    split at hload
    · next hwithin =>
      cases hload
      have hlate := hchain.le_of_load hrejects hwithin
      have hearly := hids x hx
      omega
    · cases hload

/-! A class file with the name of a class of the platform, behind a filter that holds this class
back. -/

def impostorNatives : List NativeClass := [⟨"B", none, []⟩]

def impostorPlatform : World := (start impostorNatives).2

def impostorClasses : List (String × Class) :=
  (defineNatives (platformClasses ++ impostorNatives) 0 []).2

def impostorFilter : Filter := ({} : Filter).allowClass scriptClassName

/-- The class path loader, which is the last of three, before the class file is written. -/
def impostorLoaders : World :=
  ((impostorPlatform.addFilter 0 impostorFilter).2.addClassPath [⟨"/c"⟩] (some 1)).2

def impostorWorld : World :=
  let write := FileTree.writeBelow ⟨"/c/B.class"⟩ (ClassFile.empty "B" none).encode
  { impostorLoaders with files := (write.run {}).2 }

theorem history_impostorLoaders : impostorPlatform.History impostorLoaders :=
  .tail (.single (.addLoader _ _ (by decide))) (.addLoader _ _ (by decide))

theorem history_impostorWorld : impostorLoaders.History impostorWorld :=
  .single (.files _ _)

theorem chain_impostorWorld :
    Chain impostorPlatform impostorWorld 0 2 [impostorFilter] := by
  have hloader : impostorLoaders.loader? 2 = some (.classPath [⟨"/c"⟩] (some 1) []) := rfl
  exact .classPath history_impostorLoaders hloader history_impostorWorld (.filtering rfl .root)

theorem exists_load_impostor : ∃ c, (impostorWorld.load 2 "B").1 = .ok c := by
  have hok : (impostorWorld.load 2 "B").1.isOk = true := by decide +kernel
  cases hload : (impostorWorld.load 2 "B").1 with
  | error e =>
    rw [hload] at hok
    cases hok
  | ok c => exact ⟨c, rfl⟩

/-- The class of the file is loaded, which is none of the platform's; the script class passes. -/
theorem impostor_is_told_apart :
    (impostorPlatform.Ordered ∧ impostorPlatform.loader? 0 = some (.system impostorClasses) ∧
      (∀ x ∈ impostorClasses, x.2.id < impostorPlatform.classCount) ∧
      impostorPlatform.History impostorWorld ∧
      Chain impostorPlatform impostorWorld 0 2 [impostorFilter]) ∧
    (∃ c c', impostorClasses.lookup "B" = some c ∧ (impostorWorld.load 2 "B").1 = .ok c' ∧
      ∀ x ∈ impostorClasses, c'.id ≠ x.2.id) ∧
    ∃ script, impostorClasses.lookup scriptClassName = some script ∧
      impostorWorld.load 2 scriptClassName = (.ok script, impostorWorld) := by
  have hw₀ : impostorPlatform.Ordered := ordered_start _
  have hroot : impostorPlatform.loader? 0 = some (.system impostorClasses) := rfl
  have hids : ∀ x ∈ impostorClasses, x.2.id < impostorPlatform.classCount :=
    id_lt_of_mem_defineNatives _ 0 fun _ hx ↦ absurd hx List.not_mem_nil
  have hrun := history_impostorLoaders.trans history_impostorWorld
  refine ⟨⟨hw₀, hroot, hids, hrun, chain_impostorWorld⟩, ?_, ?_⟩
  · obtain ⟨c, hc⟩ := Option.isSome_iff_exists.mp
      (by decide +kernel : (impostorClasses.lookup "B").isSome = true)
    obtain ⟨c', hload⟩ := exists_load_impostor
    have hrejects : ∃ filter ∈ [impostorFilter], filter.allows "B" = false :=
      ⟨_, List.mem_singleton_self _, by decide +kernel⟩
    exact ⟨c, c', hc, hload,
      (platform_classes_through_filters hw₀ hroot hids hrun chain_impostorWorld hc).2 hrejects c'
        hload⟩
  · obtain ⟨script, hscript⟩ := Option.isSome_iff_exists.mp
      (by decide +kernel : (impostorClasses.lookup scriptClassName).isSome = true)
    refine ⟨script, hscript,
      (platform_classes_through_filters hw₀ hroot hids hrun chain_impostorWorld hscript).1 ?_⟩
    intro filter hfilter
    obtain rfl := List.mem_singleton.mp hfilter
    decide +kernel

end World

end BuildScript
