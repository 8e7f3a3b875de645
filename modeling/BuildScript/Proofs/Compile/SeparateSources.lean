import BuildScript.Proofs.Compile.FailingPhases
import BuildScript.Proofs.Compile.ResolutionRule
import BuildScript.Proofs.Loading.Verdicts

/-!
# Sources that are compiled together

Sources of one compilation share a resolver with its memory, a log of errors that ends parsing when
it is full, and a list of classes. Still none of them makes a difference to the others: a
compilation succeeds if each source passes each phase, and makes the classes of each.

## Design

What a phase makes of a source is told by functions of the source alone, such as
`SourceUnit.resolutionErrors` and `SourceUnit.resolved`. A phase is `Separate` if its step reports
nothing exactly when no source has an error and then takes each source to its next form. In what
state a source finds the resolver and the world does not matter as long as it has a property that is
kept and that fixes the answers: that is what `CompilationUnit.Settled` promises.

Which errors are reported does depend on the other sources, since nothing is parsed behind a full
log. Whether there are any does not.
-/

namespace BuildScript

/-! ## What the phases make of one source -/

namespace CompilationUnit

variable {ρ τ : Type} (unit : CompilationUnit ρ τ) (source : CodeSource) (node : ClassNode)

/-- The errors of generating a class. -/
def generationErrors : List Message :=
  match node.compile unit.configuration.debug with
  | .ok _ => []
  | .error e => [.general e.message (some source.name)]

/-- The class that is generated. -/
def generated : List CompiledClass :=
  match node.compile unit.configuration.debug with
  | .ok file => [⟨file.name, unit.encode { file with sourceFile := some source.name }.parts⟩]
  | .error _ => []

end CompilationUnit

namespace SourceUnit

variable {ρ τ : Type} (unit : CompilationUnit ρ τ) (known : String → Bool) (u : SourceUnit)

/-- The errors of parsing. -/
def syntaxErrors : List Message :=
  match parse u.source.text with
  | .ok _ => []
  | .error errors => errors.map fun (e : SyntaxError) ↦
      .located ⟨e.message, e.span⟩ u.source.name u.source.text

def parsed : SourceUnit := { u with script := (parse u.source.text).toOption }

/-- The errors of resolving names, if the known names are those of classes. -/
def resolutionErrors : List Message :=
  u.script.toList.flatMap fun script ↦
    (importErrors known script.imports).map fun e ↦ .located e u.source.name u.source.text

def resolved : SourceUnit :=
  { u with script := u.script.map fun script ↦ script.withClasses known Expr.candidateIn }

/-- The class node of the script. -/
def node (script : Script) : ClassNode :=
  .ofScript u.source.name unit.configuration.scriptBaseClass script

/-- The errors of verifying class nodes. -/
def selectionErrors : List Message :=
  u.script.toList.flatMap fun script ↦
    match unit.verifier (u.node unit script), (u.node unit script).verify with
    | .ok _, .ok _ => []
    | .error fault, _ | .ok _, .error fault => [.general fault.message (some u.source.name)]

def selected : SourceUnit :=
  { u with classNodes := u.script.elim u.classNodes fun script ↦ [u.node unit script] }

/-- The errors of generating classes. -/
def generationErrors : List Message := u.classNodes.flatMap (unit.generationErrors u.source)

/-- The classes that are generated. -/
def generated : List CompiledClass := u.classNodes.flatMap (unit.generated u.source)

end SourceUnit

/-- A unit that compiles to memory without operations. On states with the property `P` its resolver
knows a fixed set of names, and whether there is the base class of scripts is fixed as well. -/
structure CompilationUnit.Settled {ρ τ : Type} (unit : CompilationUnit ρ τ)
    (P : ρ × World → Prop) (known : String → Bool) (ready : Prop) : Prop where
  operations_eq : unit.operations = []
  target_eq : unit.configuration.targetDirectory = none
  knows : unit.resolver.Knows P known
  keeps_load : ∀ s, P s → P (s.1, (s.2.load unit.loader unit.configuration.scriptBaseClass).2)
  ready_iff : ∀ s, P s →
    (ready ↔ ∃ base, (s.2.load unit.loader unit.configuration.scriptBaseClass).1 = .ok base)

namespace Compilation

variable {ρ τ : Type} {unit : CompilationUnit ρ τ} {c : Compilation ρ τ}

/-! ## The loops of the phases -/

/-- A loop whose rounds report and, if they report nothing, add what belongs to their element,
wherever they begin. -/
theorem foldl_separately {α β : Type} (I : Compilation ρ τ → Prop)
    (field : Compilation ρ τ → List β) (errors : α → List Message) (added : α → List β)
    {f : Compilation ρ τ → α → Compilation ρ τ}
    (h : ∀ c a, I c → I (f c a) ∧ (f c a).log.messages = c.log.messages ++ errors a ∧
      (errors a = [] → field (f c a) = field c ++ added a))
    (l : List α) (c : Compilation ρ τ) (hc : I c) :
    I (l.foldl f c) ∧ (l.foldl f c).log.messages = c.log.messages ++ l.flatMap errors ∧
      ((∀ a ∈ l, errors a = []) → field (l.foldl f c) = field c ++ l.flatMap added) := by
  induction l generalizing c with
  | nil => exact ⟨hc, (List.append_nil _).symm, fun _ ↦ (List.append_nil _).symm⟩
  | cons a l ih =>
    obtain ⟨hround, hmessages, hfield⟩ := h c a hc
    obtain ⟨hrest, hmessages', hfield'⟩ := ih (f c a) hround
    refine ⟨hrest, ?_, fun hsilent ↦ ?_⟩
    · rw [List.foldl_cons, hmessages', hmessages, List.flatMap_cons, List.append_assoc]
    · obtain ⟨ha, hl⟩ := List.forall_mem_cons.mp hsilent
      rw [List.foldl_cons, hfield' hl, hfield ha, List.flatMap_cons, List.append_assoc]

theorem overTolerance_of_nil {log : MessageLog} (h : log.messages = []) :
    log.overTolerance = false := by
  simp [MessageLog.overTolerance, h]

/-- Sources that can all be parsed are parsed. -/
theorem parseSources_eq {done us : List SourceUnit} {log : MessageLog} (hlog : log.messages = [])
    (h : ∀ u ∈ us, u.syntaxErrors = []) :
    parseSources done log us = (done.reverse ++ us.map (·.parsed), log) := by
  induction us generalizing done with
  | nil => rw [parseSources, List.map_nil, List.append_nil]
  | cons u us ih =>
    obtain ⟨hu, hus⟩ := List.forall_mem_cons.mp h
    rw [SourceUnit.syntaxErrors] at hu
    rw [parseSources]
    cases hparse : parse u.source.text with
    | error errors =>
      rw [hparse] at hu
      exact absurd (List.map_eq_nil_iff.mp hu) (ne_nil_of_parse hparse)
    | ok script =>
      dsimp only
      rw [overTolerance_of_nil hlog, if_neg Bool.false_ne_true, ih hus, List.reverse_cons,
        List.append_assoc, List.map_cons, SourceUnit.parsed, hparse]
      rfl

/-- Parsing stops early only behind errors, so without any it has parsed all sources. -/
theorem syntaxErrors_of_parseSources {done us : List SourceUnit} {log : MessageLog}
    (h : (parseSources done log us).2.messages = []) : ∀ u ∈ us, u.syntaxErrors = [] := by
  induction us generalizing done log with
  | nil => exact fun u hu ↦ absurd hu List.not_mem_nil
  | cons u us ih =>
    have hlog := (shapes_of_parseSources h).1
    rw [parseSources] at h
    rw [List.forall_mem_cons, SourceUnit.syntaxErrors]
    cases hparse : parse u.source.text with
    | ok script =>
      rw [hparse] at h
      dsimp only at h
      rw [overTolerance_of_nil hlog, if_neg Bool.false_ne_true] at h
      exact ⟨rfl, ih h⟩
    | error errors =>
      rw [hparse] at h
      dsimp only at h
      have hadded : (log.add (errors.map fun (e : SyntaxError) ↦
          Message.located ⟨e.message, e.span⟩ u.source.name u.source.text)).messages = [] := by
        split at h
        · exact h
        · exact (shapes_of_parseSources h).1
      have hnil := (List.append_eq_nil_iff.mp hadded).2
      exact absurd (List.map_eq_nil_iff.mp hnil) (ne_nil_of_parse hparse)

/-! ## Phases that treat sources separately -/

/-- What the sources of a compilation share. -/
def shared (c : Compilation ρ τ) : ρ × World := (c.resolverState, c.world)

/-- A step that keeps the property of what is shared, takes each source to the next and makes no
classes. -/
structure Passes (P : ρ × World → Prop) (next : SourceUnit → SourceUnit) (c c' : Compilation ρ τ) :
    Prop where
  keeps : P c'.shared
  units_eq : c'.units = c.units.map next
  classes_eq : c'.classes = c.classes

/-- The step of a phase reports nothing exactly if it is ready and no source has errors of its own,
and then it passes. -/
structure Separate (unit : CompilationUnit ρ τ) (P : ρ × World → Prop) (phase : Phase)
    (ready : Prop) (errors : SourceUnit → List Message) (next : SourceUnit → SourceUnit) :
    Prop where
  silent_iff : ∀ c : Compilation ρ τ, P c.shared → c.log.messages = [] →
    ((c.phaseStep unit phase).2.log.messages = [] ↔ ready ∧ ∀ u ∈ c.units, errors u = [])
  passes : ∀ c : Compilation ρ τ, P c.shared → c.log.messages = [] →
    (c.phaseStep unit phase).2.log.messages = [] → c.Passes P next (c.phaseStep unit phase).2

section Steps

variable {P : ρ × World → Prop} {known : String → Bool}

theorem separate_parsing : Separate unit P .parsing True (·.syntaxErrors) (·.parsed) where
  silent_iff c _ hc := by
    rw [true_and]
    refine ⟨fun h ↦ syntaxErrors_of_parseSources h, fun h ↦ ?_⟩
    rw [phaseStep, parseSources_eq hc h]
    exact hc
  passes c hP hc h := by
    rw [phaseStep, parseSources_eq hc (syntaxErrors_of_parseSources h)]
    exact ⟨hP, rfl, rfl⟩

/-- One round of a loop over the sources: it reports the errors of a source, and without any it adds
the next form of it to the sources. -/
structure Round (P : ρ × World → Prop) (errors : SourceUnit → List Message)
    (next : SourceUnit → SourceUnit) (c : Compilation ρ τ) (u : SourceUnit)
    (c' : Compilation ρ τ) : Prop where
  keeps : P c'.shared
  classes_eq : c'.classes = c.classes
  messages_eq : c'.log.messages = c.log.messages ++ errors u
  units_eq : errors u = [] → c'.units = c.units ++ [next u]

/-- A loop over the sources that puts them together again. -/
theorem loop_separately {f : Compilation ρ τ → SourceUnit → Compilation ρ τ}
    {errors : SourceUnit → List Message} {next : SourceUnit → SourceUnit}
    (hround : ∀ c u, P c.shared → Round P errors next c u (f c u))
    (c : Compilation ρ τ) (hP : P c.shared) (hc : c.log.messages = []) :
    ((c.units.foldl f { c with units := [] }).log.messages = [] ↔ ∀ u ∈ c.units, errors u = []) ∧
      ((c.units.foldl f { c with units := [] }).log.messages = [] →
        c.Passes P next (c.units.foldl f { c with units := [] })) := by
  have hrounds (d : Compilation ρ τ) (u : SourceUnit) (hd : P d.shared ∧ d.classes = c.classes) :
      (P (f d u).shared ∧ (f d u).classes = c.classes) ∧
        (f d u).log.messages = d.log.messages ++ errors u ∧
        (errors u = [] → (f d u).units = d.units ++ [next u]) := by
    have h := hround d u hd.1
    exact ⟨⟨h.keeps, h.classes_eq.trans hd.2⟩, h.messages_eq, h.units_eq⟩
  obtain ⟨⟨hkeeps, hclasses⟩, hmessages, hunits⟩ := foldl_separately _ (·.units) errors
    (fun u ↦ [next u]) hrounds c.units { c with units := [] } ⟨hP, rfl⟩
  have hsilent : (c.units.foldl f { c with units := [] }).log.messages = [] ↔
      ∀ u ∈ c.units, errors u = [] := by
    rw [hmessages]
    change c.log.messages ++ _ = [] ↔ _
    rw [hc, List.nil_append, List.flatMap_eq_nil_iff]
  refine ⟨hsilent, fun h ↦ ⟨hkeeps, ?_, hclasses⟩⟩
  rw [hunits (hsilent.mp h), List.map_eq_flatMap]
  rfl

/-- Resolving a source asks the resolver and leaves it with the property. -/
theorem round_resolveSource (hr : unit.resolver.Knows P known) (c : Compilation ρ τ)
    (u : SourceUnit) (hP : P c.shared) :
    Round P (·.resolutionErrors known) (·.resolved known) c u
      (resolveSource unit.resolver c u) := by
  obtain ⟨source, _ | script, nodes⟩ := u
  · exact ⟨hP, rfl, (List.append_nil _).symm, fun _ ↦ rfl⟩
  · have hresolve : script.resolve unit.resolver (c.resolverState, c.world) = _ :=
      script.resolve_eq hr hP
    rw [resolveSource]
    dsimp only
    rw [hresolve]
    refine ⟨hr.keeps_after _ hP, rfl, ?_, fun _ ↦ rfl⟩
    rw [SourceUnit.resolutionErrors, Option.toList_some, List.flatMap_singleton]
    rfl

theorem separate_semanticAnalysis {ready : Prop} (hunit : unit.Settled P known ready) :
    Separate unit P .semanticAnalysis ready (·.resolutionErrors known) (·.resolved known) := by
  suffices hstep : ∀ c : Compilation ρ τ, P c.shared → c.log.messages = [] →
      ((c.resolveSources unit).log.messages = [] ↔
        ready ∧ ∀ u ∈ c.units, u.resolutionErrors known = []) ∧
      ((c.resolveSources unit).log.messages = [] →
        c.Passes P (·.resolved known) (c.resolveSources unit)) from
    ⟨fun c hP hc ↦ (hstep c hP hc).1, fun c hP hc ↦ (hstep c hP hc).2⟩
  intro c hP hc
  have hloaded := hunit.keeps_load c.shared hP
  have hfound := hunit.ready_iff c.shared hP
  rw [resolveSources]
  dsimp only [shared] at hloaded hfound ⊢
  generalize c.world.load unit.loader unit.configuration.scriptBaseClass = loaded
    at hloaded hfound ⊢
  obtain ⟨e | base, w⟩ := loaded
  · -- The base class is not there, which is reported whatever the sources are.
    have hnot : ¬ready := fun h ↦ by
      obtain ⟨base, hbase⟩ := hfound.mp h
      cases hbase
    have hreported (m : Message) :
        (({ c with world := w }.report [m]).log.messages = [] ↔
          ready ∧ ∀ u ∈ c.units, u.resolutionErrors known = []) ∧
        (({ c with world := w }.report [m]).log.messages = [] →
          c.Passes P (·.resolved known) ({ c with world := w }.report [m])) := by
      have hne : ({ c with world := w }.report [m]).log.messages ≠ [] :=
        fun h ↦ List.cons_ne_nil _ _ (messages_of_report h).2
      exact ⟨iff_of_false hne fun h ↦ hnot h.1, fun h ↦ (hne h).elim⟩
    cases e <;> exact hreported _
  · obtain ⟨hsilent, hpasses⟩ := loop_separately (round_resolveSource hunit.knows)
      { c with world := w } hloaded hc
    refine ⟨?_, fun h ↦ ⟨(hpasses h).keeps, (hpasses h).units_eq, (hpasses h).classes_eq⟩⟩
    rw [and_iff_right (hfound.mpr ⟨base, rfl⟩)]
    exact hsilent

/-- A class node is made of each script and verified. -/
theorem round_selectSource (c : Compilation ρ τ) (u : SourceUnit) (hP : P c.shared) :
    Round P (·.selectionErrors unit) (·.selected unit) c u (selectSource unit c u) := by
  obtain ⟨source, _ | script, nodes⟩ := u
  · exact ⟨hP, rfl, (List.append_nil _).symm, fun _ ↦ rfl⟩
  · have herrors : SourceUnit.selectionErrors unit ⟨source, some script, nodes⟩ =
        match unit.verifier (.ofScript source.name unit.configuration.scriptBaseClass script),
          (ClassNode.ofScript source.name unit.configuration.scriptBaseClass script).verify with
        | .ok _, .ok _ => []
        | .error fault, _ | .ok _, .error fault => [.general fault.message (some source.name)] := by
      rw [SourceUnit.selectionErrors, Option.toList_some, List.flatMap_singleton]
      rfl
    rw [selectSource]
    dsimp only
    split
    next hverifier hverify =>
      rw [hverifier, hverify] at herrors
      refine ⟨hP, rfl, ?_, fun _ ↦ rfl⟩
      rw [herrors]
      exact (List.append_nil _).symm
    next fault _ hverifier =>
      rw [hverifier] at herrors
      refine ⟨hP, rfl, ?_, fun h ↦ ?_⟩
      · rw [herrors]
        rfl
      · cases herrors.symm.trans h
    next fault hverifier hverify =>
      rw [hverifier, hverify] at herrors
      refine ⟨hP, rfl, ?_, fun h ↦ ?_⟩
      · rw [herrors]
        rfl
      · cases herrors.symm.trans h

theorem separate_instructionSelection :
    Separate unit P .instructionSelection True (·.selectionErrors unit) (·.selected unit) where
  silent_iff c hP hc := by
    rw [true_and]
    exact (loop_separately round_selectSource c hP hc).1
  passes c hP hc h := (loop_separately round_selectSource c hP hc).2 h

end Steps

theorem generateClass_separately (source : CodeSource) (c : Compilation ρ τ) (node : ClassNode) :
    (generateClass unit source c node).log.messages =
        c.log.messages ++ unit.generationErrors source node ∧
      (unit.generationErrors source node = [] →
        (generateClass unit source c node).classes = c.classes ++ unit.generated source node) := by
  rw [generateClass, CompilationUnit.generationErrors, CompilationUnit.generated]
  cases node.compile unit.configuration.debug with
  | ok file => exact ⟨(List.append_nil _).symm, fun _ ↦ rfl⟩
  | error e => exact ⟨rfl, fun h ↦ by cases h⟩

theorem generateClasses_separately (c : Compilation ρ τ) (u : SourceUnit) :
    (u.classNodes.foldl (generateClass unit u.source) c).log.messages =
        c.log.messages ++ u.generationErrors unit ∧
      (u.generationErrors unit = [] →
        (u.classNodes.foldl (generateClass unit u.source) c).classes =
          c.classes ++ u.generated unit) := by
  obtain ⟨-, hmessages, hclasses⟩ := foldl_separately (fun _ ↦ True) (·.classes)
    (unit.generationErrors u.source) (unit.generated u.source)
    (fun c node _ ↦ ⟨trivial, generateClass_separately u.source c node⟩) u.classNodes c trivial
  exact ⟨hmessages, fun h ↦ hclasses (List.flatMap_eq_nil_iff.mp h)⟩

/-- Generating classes reports the errors of each source, and without any it adds the classes of
each. -/
theorem classGeneration_separately (c : Compilation ρ τ) (hc : c.log.messages = []) :
    ((c.phaseStep unit .classGeneration).2.log.messages = [] ↔
        ∀ u ∈ c.units, u.generationErrors unit = []) ∧
      ((c.phaseStep unit .classGeneration).2.log.messages = [] →
        (c.phaseStep unit .classGeneration).2.classes =
          c.classes ++ c.units.flatMap (·.generated unit)) := by
  obtain ⟨-, hmessages, hclasses⟩ := foldl_separately (fun _ ↦ True) (·.classes)
    (·.generationErrors unit) (·.generated unit)
    (fun c u _ ↦ ⟨trivial, generateClasses_separately c u⟩) c.units c trivial
  have hsilent : (c.phaseStep unit .classGeneration).2.log.messages = [] ↔
      ∀ u ∈ c.units, u.generationErrors unit = [] := by
    rw [phaseStep]
    dsimp only
    rw [hmessages, hc, List.nil_append, List.flatMap_eq_nil_iff]
  exact ⟨hsilent, fun h ↦ hclasses (hsilent.mp h)⟩

/-! ## Runs -/

section Runs

variable {P : ρ × World → Prop} {known : String → Bool} {ready ready' : Prop} {phase : Phase}
  {phases : List Phase} {errors : SourceUnit → List Message} {next : SourceUnit → SourceUnit}
  {good : SourceUnit → Prop} {classes : SourceUnit → List CompiledClass}

/-- Without operations, a phase is its step and fails if there are errors behind it. -/
theorem runPhase_eq_step (hunit : unit.Settled P known ready) (phase : Phase)
    (c : Compilation ρ τ) : c.runPhase unit phase =
      (if (c.phaseStep unit phase).2.log.hasErrors then
        .error (.multiple phase (c.phaseStep unit phase).2.log) else .ok (),
      (c.phaseStep unit phase).2) := by
  have hops (d : Compilation ρ τ) : d.operateAll unit phase = d := by
    rw [operateAll, hunit.operations_eq]
    rfl
  rw [runPhase, phaseStep_of_inMemory hunit.target_eq]
  dsimp only
  rw [hops, ite_self]
  split <;> rfl

theorem runPhases_cons_of_silent (hunit : unit.Settled P known ready)
    (h : (c.phaseStep unit phase).2.log.messages = []) :
    c.runPhases unit (phase :: phases) = (c.phaseStep unit phase).2.runPhases unit phases := by
  rw [runPhases, runPhase_eq_step hunit, hasErrors_eq_false_iff.mpr h]
  rfl

theorem silent_of_runPhases_cons (h : (c.runPhases unit (phase :: phases)).1 = .ok ()) :
    (c.phaseStep unit phase).2.log.messages = [] := by
  obtain ⟨c₁, hrun, -⟩ := runPhases_cons_eq_ok.mp (Prod.ext h rfl)
  obtain ⟨c₂, hstep, hsilent, -⟩ := runPhase_eq_ok hrun
  rwa [hstep]

/-- Whether the phases succeed and which classes they make is up to each source, once they are
ready. -/
structure RunsSeparately (unit : CompilationUnit ρ τ) (P : ρ × World → Prop) (phases : List Phase)
    (ready : Prop) (good : SourceUnit → Prop) (classes : SourceUnit → List CompiledClass) :
    Prop where
  ok_iff : ∀ c : Compilation ρ τ, P c.shared → c.log.messages = [] →
    ((c.runPhases unit phases).1 = .ok () ↔ ready ∧ ∀ u ∈ c.units, good u)
  classes_eq : ∀ c : Compilation ρ τ, P c.shared → c.log.messages = [] →
    (c.runPhases unit phases).1 = .ok () →
      (c.runPhases unit phases).2.classes = c.classes ++ c.units.flatMap classes

/-- A separate phase in front of phases that run separately. -/
theorem RunsSeparately.cons (h : RunsSeparately unit P phases ready good classes)
    (hunit : unit.Settled P known ready') {here : Prop}
    (hphase : Separate unit P phase here errors next) :
    RunsSeparately unit P (phase :: phases) (here ∧ ready)
      (fun u ↦ errors u = [] ∧ good (next u)) fun u ↦ classes (next u) where
  ok_iff c hP hc := by
    constructor
    · intro hok
      have hsilent := silent_of_runPhases_cons hok
      have hpasses := hphase.passes c hP hc hsilent
      rw [runPhases_cons_of_silent hunit hsilent, h.ok_iff _ hpasses.keeps hsilent,
        hpasses.units_eq, List.forall_mem_map] at hok
      obtain ⟨hhere, herrors⟩ := (hphase.silent_iff c hP hc).mp hsilent
      exact ⟨⟨hhere, hok.1⟩, fun u hu ↦ ⟨herrors u hu, hok.2 u hu⟩⟩
    · rintro ⟨⟨hhere, hready⟩, hgood⟩
      have hsilent := (hphase.silent_iff c hP hc).mpr ⟨hhere, fun u hu ↦ (hgood u hu).1⟩
      have hpasses := hphase.passes c hP hc hsilent
      rw [runPhases_cons_of_silent hunit hsilent, h.ok_iff _ hpasses.keeps hsilent,
        hpasses.units_eq, List.forall_mem_map]
      exact ⟨hready, fun u hu ↦ (hgood u hu).2⟩
  classes_eq c hP hc hok := by
    have hsilent := silent_of_runPhases_cons hok
    have hpasses := hphase.passes c hP hc hsilent
    rw [runPhases_cons_of_silent hunit hsilent] at hok ⊢
    rw [h.classes_eq _ hpasses.keeps hsilent hok, hpasses.units_eq, hpasses.classes_eq,
      List.flatMap_map]

/-- A phase whose step does nothing is passed. -/
theorem runPhases_cons_of_idle (hunit : unit.Settled P known ready) (hc : c.log.messages = [])
    (hidle : (c.phaseStep unit phase).2 = c) :
    c.runPhases unit (phase :: phases) = c.runPhases unit phases := by
  rw [runPhases_cons_of_silent hunit (hidle.symm ▸ hc), hidle]

theorem RunsSeparately.cons_idle (h : RunsSeparately unit P phases ready good classes)
    (hunit : unit.Settled P known ready') (phase : Phase)
    (hidle : ∀ c : Compilation ρ τ, (c.phaseStep unit phase).2 = c) :
    RunsSeparately unit P (phase :: phases) ready good classes where
  ok_iff c hP hc := by
    rw [runPhases_cons_of_idle hunit hc (hidle c)]
    exact h.ok_iff c hP hc
  classes_eq c hP hc hok := by
    rw [runPhases_cons_of_idle hunit hc (hidle c)] at hok ⊢
    exact h.classes_eq c hP hc hok

/-- In memory nothing happens behind the generation of classes. -/
theorem runsSeparately_classGeneration (hunit : unit.Settled P known ready) :
    RunsSeparately unit P [.classGeneration, .output, .finalization] True
      (·.generationErrors unit = []) (·.generated unit) := by
  have houtput (d : Compilation ρ τ) : (d.phaseStep unit .output).2 = d := by
    rw [phaseStep, hunit.target_eq]
  have hrest {c : Compilation ρ τ} (h : (c.phaseStep unit .classGeneration).2.log.messages = []) :
      c.runPhases unit [.classGeneration, .output, .finalization] =
        (.ok (), (c.phaseStep unit .classGeneration).2) := by
    rw [runPhases_cons_of_silent hunit h, runPhases_cons_of_idle hunit h (houtput _),
      runPhases_cons_of_idle hunit h rfl, runPhases]
  refine ⟨fun c _ hc ↦ ?_, fun c _ hc hok ↦ ?_⟩
  · rw [true_and, ← (classGeneration_separately c hc).1]
    exact ⟨silent_of_runPhases_cons, fun h ↦ by rw [hrest h]⟩
  · have hsilent := silent_of_runPhases_cons hok
    rw [hrest hsilent]
    exact (classGeneration_separately c hc).2 hsilent

end Runs

end Compilation

/-! ## The whole compilation -/

namespace SourceUnit

variable {ρ τ : Type} (unit : CompilationUnit ρ τ) (known : String → Bool) (u : SourceUnit)

/-- The source with its class nodes, if it passes the phases before. -/
def analyzed : SourceUnit := (u.parsed.resolved known).selected unit

/-- No phase finds an error in the source. -/
def Compiles : Prop :=
  u.syntaxErrors = [] ∧ u.parsed.resolutionErrors known = [] ∧
    (u.parsed.resolved known).selectionErrors unit = [] ∧
      (u.analyzed unit known).generationErrors unit = []

end SourceUnit

/-- A compilation to memory succeeds if and only if there is the base class of scripts and no phase
finds an error in any of the sources, and then it makes the classes of each. -/
theorem CompilationUnit.Settled.runsSeparately {ρ τ : Type} {unit : CompilationUnit ρ τ}
    {P : ρ × World → Prop} {known : String → Bool} {ready : Prop}
    (hunit : unit.Settled P known ready) :
    Compilation.RunsSeparately unit P Phase.all ready (·.Compiles unit known)
      fun u ↦ (u.analyzed unit known).generated unit := by
  have hgeneration := Compilation.runsSeparately_classGeneration hunit
  have hselection := hgeneration.cons hunit Compilation.separate_instructionSelection
  have hanalysis := (hselection.cons_idle hunit .canonicalization fun _ ↦ rfl).cons hunit
    (Compilation.separate_semanticAnalysis hunit)
  have hparsing := (hanalysis.cons_idle hunit .conversion fun _ ↦ rfl).cons hunit
    Compilation.separate_parsing
  have hall := hparsing.cons_idle hunit .initialization fun _ ↦ rfl
  simp only [true_and, and_true] at hall
  exact hall

end BuildScript
