import BuildScript.Proofs.Compile.ResolutionRule

/-!
# Resolution behind the prefilter

The prefilter keeps questions from a resolver that would be denied anyway. For a resolver that knows
none of the names held back, nothing else changes: the same errors, the same script, and the
questions that get through come in the same order. So the lookup that compilations use may be put
behind the prefilter, if the classes and sources it finds do not change meanwhile.
-/

namespace BuildScript

variable {σ : Type} {P : σ → Prop} {known : String → Bool} {r : Resolver σ}

/-! ## Observed questions -/

namespace Resolver

/-- The resolver, with a record of the questions that reach it, last first. -/
def observed (r : Resolver σ) : Resolver (σ × List String) where
  find name s := ((r.find name s.1).1, (r.find name s.1).2, name :: s.2)

theorem after_observed (r : Resolver σ) (names : List String) (s : σ) (record : List String) :
    r.observed.after names (s, record) = (r.after names s, names.reverse ++ record) := by
  induction names generalizing s record with
  | nil => rfl
  | cons name names ih =>
    rw [after, List.foldl_cons, List.reverse_cons, List.append_assoc]
    exact ih _ _

/-- Questions about names held back leave the resolver as it is. -/
theorem after_prefiltered (r : Resolver σ) (names : List String) (s : σ) :
    r.prefiltered.after names s = r.after (names.filter fun name ↦ !canSkipLookup name) s := by
  induction names generalizing s with
  | nil => rfl
  | cons name names ih =>
    rw [after, List.foldl_cons, List.filter_cons]
    refine (ih _).trans ?_
    cases hskip : canSkipLookup name with
    | true => simp [prefiltered, hskip]
    | false => simp [prefiltered, hskip, after]

end Resolver

namespace Resolver.Knows

theorem observed (h : r.Knows P known) : r.observed.Knows (fun s ↦ P s.1) known where
  keeps name s hs := h.keeps name s.1 hs
  answer name s hs := h.answer name s.1 hs

/-- A resolver that knows no name held back knows the same names behind the prefilter. -/
theorem prefiltered (h : r.Knows P known)
    (hknown : ∀ name, known name = true → canSkipLookup name = false) :
    r.prefiltered.Knows P known where
  keeps name s hs := by
    rw [Resolver.prefiltered]
    dsimp only
    split
    · exact hs
    · exact h.keeps name s hs
  answer name s hs := by
    rw [Resolver.prefiltered]
    dsimp only
    split
    next hskip =>
      rw [eq_comm, Bool.eq_false_iff]
      intro hname
      rw [hknown name hname] at hskip
      cases hskip
    next => exact h.answer name s hs

end Resolver.Knows

/-! ## Transparency -/

/-- Started in the state `s`, the resolver serves every script alike with and without the prefilter
in front of it, but for the questions held back. -/
structure Resolver.PrefilterTransparent (r : Resolver σ) (s : σ) (script : Script) : Prop where
  errors_eq : (script.resolve r.prefiltered s).1 = (script.resolve r s).1
  script_eq : (script.resolve r.prefiltered s).2.1 = (script.resolve r s).2.1
  questions_eq : (script.resolve r.observed.prefiltered (s, [])).2.2.2.reverse =
    (script.resolve r.observed (s, [])).2.2.2.reverse.filter fun name ↦ !canSkipLookup name

theorem Resolver.Knows.prefilterTransparent (h : r.Knows P known)
    (hknown : ∀ name, known name = true → canSkipLookup name = false) {s : σ} (hs : P s)
    (script : Script) : r.PrefilterTransparent s script where
  errors_eq := by rw [script.resolve_eq (h.prefiltered hknown) hs, script.resolve_eq h hs]
  script_eq := by rw [script.resolve_eq (h.prefiltered hknown) hs, script.resolve_eq h hs]
  questions_eq := by
    have hobserved : P (s, ([] : List String)).1 := hs
    rw [script.resolve_eq (h.observed.prefiltered hknown) hobserved,
      script.resolve_eq h.observed hobserved]
    dsimp only
    rw [after_prefiltered, after_observed, after_observed, List.append_nil, List.append_nil,
      List.reverse_reverse, List.reverse_reverse]

/-! ## The lookup over a loader and sources that do not change -/

/-- On worlds with the property `P`, which loading by the loader keeps, the outcome of loading a
name and the source that would define it are always the same. -/
structure ClassLookup.Unchanging (loader : LoaderId) (sources : Option Path) (P : World → Prop)
    (classes : String → Except LoadError Class) (sourceOf : String → Option Path) : Prop where
  keeps : ∀ name w, P w → P (w.load loader name).2
  load_eq : ∀ name w, P w → (w.load loader name).1 = classes name
  source_eq : ∀ name w, P w → (sources.bind fun root ↦ findSource? w.files root name) = sourceOf name

/-- What there is of a name: its class, or else, if no class was found, its source. -/
def ClassLookup.answerOf (classes : String → Except LoadError Class)
    (sourceOf : String → Option Path) (name : String) : Option Lookup :=
  match classes name with
  | .ok c => some (.loaded c)
  | .error (.classNotFound _) => (sourceOf name).map .source
  | .error _ => none

/-- A lookup whose answers so far are right. -/
structure ClassLookup.Right (loader : LoaderId) (sources : Option Path)
    (answer : String → Option Lookup) (l : ClassLookup) : Prop where
  loader_eq : l.loader = loader
  sources_eq : l.sources = sources
  answers : ∀ name found, l.answers.lookup name = some found → found = answer name

namespace ClassLookup.Unchanging

variable {loader : LoaderId} {sources : Option Path} {P : World → Prop}
  {classes : String → Except LoadError Class} {sourceOf : String → Option Path} {l : ClassLookup}
  {w : World}

theorem search_eq (h : Unchanging loader sources P classes sourceOf)
    (hl : Right loader sources (answerOf classes sourceOf) l) (hw : P w) (name : String) :
    l.search name w = (answerOf classes sourceOf name, (w.load loader name).2) := by
  have hload : w.load loader name = (classes name, (w.load loader name).2) :=
    Prod.ext (h.load_eq name w hw) rfl
  have hsource := h.source_eq name _ (h.keeps name w hw)
  rw [search, hl.loader_eq, hl.sources_eq, hload, answerOf]
  rcases classes name with e | c
  · cases e with
    | classNotFound => simp only [hsource]
    | _ => rfl
  · rfl

/-- Remembered or not, the lookup's answer is the same, and its memory stays right. -/
theorem find (h : Unchanging loader sources P classes sourceOf)
    (hl : Right loader sources (answerOf classes sourceOf) l) (hw : P w) (name : String) :
    (l.find name w).1 = answerOf classes sourceOf name ∧
      Right loader sources (answerOf classes sourceOf) (l.find name w).2.1 ∧
      P (l.find name w).2.2 := by
  rw [ClassLookup.find]
  cases hlookup : l.answers.lookup name with
  | some found => exact ⟨hl.answers name found hlookup, hl, hw⟩
  | none =>
    dsimp only
    rw [h.search_eq hl hw]
    refine ⟨rfl, ⟨hl.loader_eq, hl.sources_eq, fun other found hother ↦ ?_⟩, h.keeps name w hw⟩
    rw [List.lookup_cons] at hother
    split at hother
    next heq =>
      cases hother
      rw [beq_iff_eq.mp heq]
    next => exact hl.answers other found hother

theorem knows (h : Unchanging loader sources P classes sourceOf) :
    resolver.Knows (fun s ↦ Right loader sources (answerOf classes sourceOf) s.1 ∧ P s.2)
      fun name ↦ (answerOf classes sourceOf name).isSome where
  keeps name _ hs := (h.find hs.1 hs.2 name).2
  answer name _ hs := congrArg Option.isSome (h.find hs.1 hs.2 name).1

end ClassLookup.Unchanging

/-! ## The platform -/

/-- The prefilter holds back no class of the platform. -/
theorem canSkipLookup_platform :
    ∀ name ∈ (World.start []).2.loaders.toList.flatMap (·.defined.map Prod.fst),
      canSkipLookup name = false := by
  decide +kernel

/-! ## The prefilter is transparent -/

/-- The prefilter is transparent for every resolver with a fixed set of names of which it holds none
back, and for the usual lookup, whatever it remembers, over a loader and sources that do not change
and have no name that it holds back. -/
theorem prefilter_transparent (script : Script) :
    (∀ {σ : Type} {r : Resolver σ} {P : σ → Prop} {known : String → Bool}, r.Knows P known →
      (∀ name, known name = true → canSkipLookup name = false) →
      ∀ s, P s → r.PrefilterTransparent s script) ∧
    ∀ {loader : LoaderId} {sources : Option Path} {P : World → Prop}
      {classes : String → Except LoadError Class} {sourceOf : String → Option Path},
      ClassLookup.Unchanging loader sources P classes sourceOf →
      (∀ name, (ClassLookup.answerOf classes sourceOf name).isSome → canSkipLookup name = false) →
      ∀ l w, ClassLookup.Right loader sources (ClassLookup.answerOf classes sourceOf) l → P w →
      ClassLookup.resolver.PrefilterTransparent (l, w) script := by
  refine ⟨fun h hknown s hs ↦ h.prefilterTransparent hknown hs script, ?_⟩
  intro loader sources P classes sourceOf h hknown l w hl hw
  exact h.knows.prefilterTransparent hknown ⟨hl, hw⟩ script

/-- A resolver that knows one class of the platform, and the lookup over the platform's loader. -/
theorem prefilter_transparent_platform :
    (Resolver.recording ["java.util.Map"]).PrefilterTransparent []
        { statements := [.expression (.var "Map" .none)], span := .none } ∧
      ClassLookup.resolver.PrefilterTransparent
        ({ loader := 0, sources := none }, (World.start []).2)
        { statements := [.expression (.var "Map" .none)], span := .none } := by
  constructor
  · have hknows : (Resolver.recording ["java.util.Map"]).Knows (fun _ ↦ True)
        ["java.util.Map"].contains := ⟨fun _ _ _ ↦ trivial, fun _ _ _ ↦ rfl⟩
    refine (prefilter_transparent _).1 hknows (fun name hname ↦ ?_) [] trivial
    rw [List.contains_iff_mem, List.mem_singleton] at hname
    subst hname
    decide +kernel
  · obtain ⟨classes, hloader⟩ : ∃ classes, (World.start []).2.loader? 0 = some (.system classes) :=
      ⟨_, rfl⟩
    have hunchanging : ClassLookup.Unchanging 0 none (fun w ↦ w = (World.start []).2)
        (fun name ↦ (classes.lookup name).elim (.error (.classNotFound name)) .ok)
        (fun _ ↦ none) := by
      refine ⟨?_, ?_, fun _ _ _ ↦ rfl⟩
      · rintro name w rfl
        rw [World.load_system hloader]
      · rintro name w rfl
        rw [World.load_system hloader]
    refine (prefilter_transparent _).2 hunchanging (fun name hname ↦ ?_) _ _
      ⟨rfl, rfl, fun _ _ h ↦ ?_⟩ rfl
    · cases hlookup : classes.lookup name with
      | none => simp [ClassLookup.answerOf, hlookup] at hname
      | some c =>
        obtain ⟨before, behind, hclasses, -⟩ := List.lookup_eq_some_iff.mp hlookup
        refine canSkipLookup_platform name (List.mem_flatMap.mpr ⟨.system classes, ?_, ?_⟩)
        · exact Array.mem_toList_iff.mpr (Array.mem_of_getElem? hloader)
        · simp [Loader.defined, hclasses]
    · cases h

end BuildScript
