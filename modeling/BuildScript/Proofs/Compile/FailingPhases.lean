import BuildScript.Proofs.Compile.Stages

/-!
# Failing phases

A compilation ends with the first phase that reports something. To say which phase that is without
speaking of a run that ends there, phases are passed whatever they report: `Compilation.pass` is the
step of a phase and its operations. `Silent` phases report nothing when they are passed one after
the other, and the first one behind them that reports is where the compilation ends, which is
`CompilationUnit.compile_ends_at_first_report`.

That the phases before have called all their operations, and that a compilation without reports has
made a class of every source, is an invariant of silent phases. `Stage` tells what the sources are
like by the number of the phases that were passed.
-/

namespace BuildScript

namespace Compilation

variable {ρ τ : Type} (unit : CompilationUnit ρ τ) (phase : Phase) (c : Compilation ρ τ)

/-! ## Reports -/

/-- The step of the phase collects an error. -/
def StepReports : Prop := (c.phaseStep unit phase).2.log.messages ≠ c.log.messages

/-- The operations of the phase collect an error. -/
def OperationsReport : Prop := (c.operateAll unit phase).log.messages ≠ c.log.messages

instance : Decidable (c.StepReports unit phase) := inferInstanceAs (Decidable (_ ≠ _))

instance : Decidable (c.OperationsReport unit phase) := inferInstanceAs (Decidable (_ ≠ _))

/-- The phase collects an error, in its step or by its operations. -/
def Reports : Prop :=
  c.StepReports unit phase ∨ (c.phaseStep unit phase).2.OperationsReport unit phase

instance : Decidable (c.Reports unit phase) := inferInstanceAs (Decidable (_ ∨ _))

/-- The step of a phase and its operations, whatever they report. -/
def pass : Compilation ρ τ := (c.phaseStep unit phase).2.operateAll unit phase

/-- The compilation behind some phases, whatever they report. -/
def after (phases : List Phase) : Compilation ρ τ :=
  phases.foldl (fun c phase ↦ c.pass unit phase) c

/-- Each of the phases reports nothing when those before were passed. -/
def Silent (c : Compilation ρ τ) : List Phase → Prop
  | [] => True
  | phase :: phases => ¬c.Reports unit phase ∧ (c.pass unit phase).Silent phases

/-- Where a compilation is when it ends with a phase: its operations are not called if its step has
collected an error. -/
def ending : Compilation ρ τ :=
  if c.StepReports unit phase then (c.phaseStep unit phase).2 else c.pass unit phase

variable {unit phase c}

/-- If phases report, then one is the first that does. -/
theorem silent_or_exists_first (c : Compilation ρ τ) (phases : List Phase) :
    c.Silent unit phases ∨ ∃ before phase later, phases = before ++ phase :: later ∧
      c.Silent unit before ∧ (c.after unit before).Reports unit phase := by
  induction phases generalizing c with
  | nil => exact .inl trivial
  | cons phase phases ih =>
    by_cases hreports : c.Reports unit phase
    · exact .inr ⟨[], phase, phases, rfl, trivial, hreports⟩
    · rcases ih (c.pass unit phase) with hsilent | ⟨before, first, later, rfl, hsilent, hfirst⟩
      · exact .inl ⟨hreports, hsilent⟩
      · exact .inr ⟨phase :: before, first, later, rfl, ⟨hreports, hsilent⟩, hfirst⟩

theorem messages_of_not_reports (hc : c.log.messages = []) (hreports : ¬c.Reports unit phase) :
    (c.phaseStep unit phase).2.log.messages = [] ∧ (c.pass unit phase).log.messages = [] := by
  obtain ⟨hstep, hops⟩ := not_or.mp hreports
  have hstep : (c.phaseStep unit phase).2.log.messages = [] := (Decidable.not_not.mp hstep).trans hc
  exact ⟨hstep, (Decidable.not_not.mp hops).trans hstep⟩

/-! ## Runs -/

/-- No class file failed to be written. -/
def NoWriteError (result : Except CompilationFailure Unit) : Prop :=
  ∀ name path cause, result ≠ .error (.output name path cause)

theorem writeClasses_error {target : Path} {classes : List CompiledClass} {w w' : World}
    {e : CompilationFailure} (h : writeClasses target classes w = (.error e, w')) :
    ∃ name path cause, e = .output name path cause := by
  induction classes generalizing w with
  | nil => cases h
  | cons k classes ih =>
    rw [writeClasses_cons] at h
    dsimp only at h
    split at h
    · exact ih h
    · cases h
      exact ⟨_, _, _, rfl⟩

/-- The step of a phase ends with an error only if a class file cannot be written. -/
theorem phaseStep_error {c' : Compilation ρ τ} {e : CompilationFailure}
    (h : c.phaseStep unit phase = (.error e, c')) :
    ∃ name path cause, e = .output name path cause := by
  cases phase with
  | output =>
    rw [phaseStep] at h
    split at h
    next => cases h
    next target _ =>
      rcases hwritten : writeClasses target c.classes c.world with ⟨_ | _, w⟩
      · rw [hwritten] at h
        cases h
        exact writeClasses_error hwritten
      · rw [hwritten] at h
        cases h
  | initialization | parsing | conversion | semanticAnalysis | canonicalization |
    instructionSelection | classGeneration | finalization => cases h

theorem phaseStep_ok (hwrite : NoWriteError (c.runPhase unit phase).1) :
    c.phaseStep unit phase = (.ok (), (c.phaseStep unit phase).2) := by
  rcases hstep : c.phaseStep unit phase with ⟨e | ⟨⟨⟩⟩, c₁⟩
  · obtain ⟨name, path, cause, rfl⟩ := phaseStep_error hstep
    rw [runPhase, hstep] at hwrite
    exact (hwrite name path cause rfl).elim
  · rfl

/-- Without a target directory no step ends with an error. -/
theorem phaseStep_of_inMemory (htarget : unit.configuration.targetDirectory = none) (phase : Phase)
    (c : Compilation ρ τ) : c.phaseStep unit phase = (.ok (), (c.phaseStep unit phase).2) := by
  cases phase with
  | output => rw [phaseStep, htarget]
  | initialization | parsing | conversion | semanticAnalysis | canonicalization |
    instructionSelection | classGeneration | finalization => rfl

/-- Without a target directory nothing is written. -/
theorem noWriteError_runPhases (htarget : unit.configuration.targetDirectory = none)
    (phases : List Phase) (c : Compilation ρ τ) : NoWriteError (c.runPhases unit phases).1 := by
  induction phases generalizing c with
  | nil =>
    rintro name path cause ⟨⟩
  | cons phase phases ih =>
    -- What is left to fail is the check of the log, which never blames a file.
    rw [runPhases, runPhase, phaseStep_of_inMemory htarget phase c]
    dsimp only
    split
    next d hrun => exact ih d
    next e d hrun =>
      obtain ⟨log, rfl⟩ : ∃ log, e = .multiple phase log := by
        split at hrun
        · cases hrun
          exact ⟨_, rfl⟩
        · split at hrun
          · cases hrun
            exact ⟨_, rfl⟩
          · cases hrun
      rintro name path cause ⟨⟩

/-- A phase without reports is passed. -/
theorem runPhase_of_not_reports (hc : c.log.messages = []) (hreports : ¬c.Reports unit phase)
    (hwrite : NoWriteError (c.runPhase unit phase).1) :
    c.runPhase unit phase = (.ok (), c.pass unit phase) ∧
      (c.pass unit phase).log.messages = [] := by
  obtain ⟨hstep, hops⟩ := messages_of_not_reports hc hreports
  refine ⟨?_, hops⟩
  rw [runPhase, phaseStep_ok hwrite]
  dsimp only
  rw [hasErrors_eq_false_iff.mpr hstep, if_neg Bool.false_ne_true]
  change (if (c.pass unit phase).log.hasErrors = true then _ else (_, c.pass unit phase)) = _
  rw [hasErrors_eq_false_iff.mpr hops, if_neg Bool.false_ne_true]

theorem hasErrors_iff {c : Compilation ρ τ} : c.log.hasErrors = true ↔ c.log.messages ≠ [] := by
  rw [Ne, ← hasErrors_eq_false_iff, Bool.not_eq_false]

/-- A phase with reports is where a compilation ends. -/
theorem runPhase_of_reports (hc : c.log.messages = []) (hreports : c.Reports unit phase)
    (hwrite : NoWriteError (c.runPhase unit phase).1) :
    c.runPhase unit phase =
        (.error (.multiple phase (c.ending unit phase).log), c.ending unit phase) ∧
      (c.ending unit phase).log.messages ≠ [] := by
  by_cases hstep : c.StepReports unit phase
  · have herrors : (c.phaseStep unit phase).2.log.messages ≠ [] := by
      rwa [StepReports, hc] at hstep
    rw [ending, if_pos hstep]
    refine ⟨?_, herrors⟩
    rw [runPhase, phaseStep_ok hwrite]
    dsimp only
    rw [hasErrors_iff.mpr herrors, if_pos rfl, hasErrors_iff.mpr herrors, if_pos rfl]
  · have hsilent : (c.phaseStep unit phase).2.log.messages = [] :=
      (Decidable.not_not.mp hstep).trans hc
    have herrors : (c.pass unit phase).log.messages ≠ [] := by
      have hops := hreports.resolve_left hstep
      rwa [OperationsReport, hsilent] at hops
    rw [ending, if_neg hstep]
    refine ⟨?_, herrors⟩
    rw [runPhase, phaseStep_ok hwrite]
    dsimp only
    rw [hasErrors_eq_false_iff.mpr hsilent, if_neg Bool.false_ne_true]
    change (if (c.pass unit phase).log.hasErrors = true then _ else _) = _
    rw [hasErrors_iff.mpr herrors, if_pos rfl]
    rfl

/-- What fails to be written in one phase fails the phases together. -/
theorem NoWriteError.runPhase {phases : List Phase}
    (hwrite : NoWriteError (c.runPhases unit (phase :: phases)).1) :
    NoWriteError (c.runPhase unit phase).1 := by
  intro name path cause heq
  rcases hrun : c.runPhase unit phase with ⟨e | ⟨⟨⟩⟩, c₁⟩
  · rw [hrun] at heq
    rw [runPhases, hrun] at hwrite
    exact hwrite name path cause heq
  · rw [hrun] at heq
    cases heq

/-- Silent phases are passed. -/
theorem runPhases_of_silent {before : List Phase} (later : List Phase) (hc : c.log.messages = [])
    (hsilent : c.Silent unit before)
    (hwrite : NoWriteError (c.runPhases unit (before ++ later)).1) :
    c.runPhases unit (before ++ later) = (c.after unit before).runPhases unit later ∧
      (c.after unit before).log.messages = [] := by
  induction before generalizing c with
  | nil => exact ⟨rfl, hc⟩
  | cons phase before ih =>
    obtain ⟨hreports, hsilent⟩ := hsilent
    obtain ⟨hrun, hpass⟩ := runPhase_of_not_reports hc hreports hwrite.runPhase
    have hrest : c.runPhases unit (phase :: before ++ later) =
        (c.pass unit phase).runPhases unit (before ++ later) := by
      rw [List.cons_append, runPhases, hrun]
    rw [hrest] at hwrite ⊢
    exact ih hpass hsilent hwrite

/-- The first phase that reports ends the compilation. -/
theorem runPhases_of_reports {before : List Phase} (later : List Phase) (hc : c.log.messages = [])
    (hsilent : c.Silent unit before) (hreports : (c.after unit before).Reports unit phase)
    (hwrite : NoWriteError (c.runPhases unit (before ++ phase :: later)).1) :
    let reached := (c.after unit before).ending unit phase
    c.runPhases unit (before ++ phase :: later) = (.error (.multiple phase reached.log), reached) ∧
      reached.log.messages ≠ [] ∧ (c.after unit before).log.messages = [] := by
  obtain ⟨hrun, hlog⟩ := runPhases_of_silent (phase :: later) hc hsilent hwrite
  rw [hrun] at hwrite ⊢
  obtain ⟨hend, herrors⟩ := runPhase_of_reports hlog hreports hwrite.runPhase
  refine ⟨?_, herrors, hlog⟩
  rw [runPhases, hend]

/-! ## Silent phases -/

theorem Stage.pass (hops : ∀ op ∈ unit.operations, op.RewritesScript) (h : c.Stage unit phase.index)
    (hc : c.log.messages = []) (hreports : ¬c.Reports unit phase) :
    (c.pass unit phase).Stage unit (phase.index + 1) :=
  (h.phaseStep (messages_of_not_reports hc hreports).1).operateAll hops phase

/-- Silent phases take the sources to their stage. -/
theorem Stage.after (hops : ∀ op ∈ unit.operations, op.RewritesScript) {phases : List Phase}
    {n : Nat} (hphases : phases <+: Phase.all.drop n) (h : c.Stage unit n)
    (hc : c.log.messages = []) (hsilent : c.Silent unit phases) :
    (c.after unit phases).Stage unit (n + phases.length) := by
  induction phases generalizing c n with
  | nil => exact h
  | cons phase phases ih =>
    obtain ⟨later, hlater⟩ := hphases
    obtain ⟨rfl, hdrop⟩ := Phase.index_of_drop hlater.symm
    have hpass := h.pass hops hc hsilent.1
    have hafter := ih ⟨later, hdrop.symm⟩ hpass (messages_of_not_reports hc hsilent.1).2 hsilent.2
    rw [List.length_cons, Nat.add_comm phases.length, ← Nat.add_assoc]
    exact hafter

/-- Files are only written by the output. -/
theorem files_after (hresolver : ∀ files, unit.resolver.Keeps fun s ↦ s.2.files = files)
    {phases : List Phase} (houtput : .output ∉ phases) (c : Compilation ρ τ) :
    (c.after unit phases).world.files = c.world.files := by
  refine List.foldlRecOn (motive := fun d : Compilation ρ τ ↦ d.world.files = c.world.files)
    phases _ rfl fun d hd phase hphase ↦ ?_
  rw [Compilation.pass, world_operateAll]
  exact (keeps_phaseStep (World.keptByLoading_files d.world.files) (hresolver _)
    (fun heq ↦ houtput (heq ▸ hphase)) d rfl).trans hd

theorem files_ending (hresolver : ∀ files, unit.resolver.Keeps fun s ↦ s.2.files = files)
    (hphase : phase ≠ .output) (c : Compilation ρ τ) :
    (c.ending unit phase).world.files = c.world.files := by
  have hstep : (c.phaseStep unit phase).2.world.files = c.world.files :=
    keeps_phaseStep (World.keptByLoading_files c.world.files) (hresolver _) hphase c rfl
  rw [ending]
  split
  · exact hstep
  · rw [Compilation.pass, world_operateAll]
    exact hstep

/-! ## Notes of silent phases -/

section Notes

variable {d : Compilation ρ (τ × List Note)}

theorem stepReports_forget :
    d.forget.StepReports unit phase ↔ d.StepReports unit.noting phase := by
  rw [StepReports, StepReports, forget_phaseStep]
  rfl

theorem forget_pass (unit : CompilationUnit ρ τ) (phase : Phase)
    (d : Compilation ρ (τ × List Note)) :
    d.forget.pass unit phase = (d.pass unit.noting phase).forget := by
  rw [Compilation.pass, Compilation.pass, forget_phaseStep, forget_operateAll]

theorem reports_forget : d.forget.Reports unit phase ↔ d.Reports unit.noting phase := by
  rw [Reports, Reports, stepReports_forget, OperationsReport, OperationsReport, forget_phaseStep,
    forget_operateAll]
  rfl

theorem forget_after (unit : CompilationUnit ρ τ) (phases : List Phase)
    (d : Compilation ρ (τ × List Note)) :
    d.forget.after unit phases = (d.after unit.noting phases).forget :=
  List.foldl_hom forget fun e phase ↦ forget_pass unit phase e

theorem silent_forget {phases : List Phase} :
    d.forget.Silent unit phases ↔ d.Silent unit.noting phases := by
  induction phases generalizing d with
  | nil => exact Iff.rfl
  | cons phase phases ih => rw [Silent, Silent, reports_forget, forget_pass, ih]

/-- A phase whose step reports nothing calls each of its operations on every source. -/
theorem notes_pass (hops : ∀ op ∈ unit.operations, op.RewritesScript)
    (h : d.Stage unit.noting phase.index)
    (hlog : (d.phaseStep unit.noting phase).2.log.messages = []) :
    (d.pass unit.noting phase).operationState.2 = d.operationState.2 ++ unit.calls [phase] := by
  have hsources : ∀ x ∈ unit.numbered phase, ∀ u s, (x.1.call u s).2.1.source = u.source :=
    fun x hx ↦ (hops x.1 (CompilationUnit.mem_of_mem_numbered hx)).source
  rw [Compilation.pass, operateAll_eq, unit.filter_operations_noting,
    notes_operateEach phase hsources, operationState_phaseStep, (h.phaseStep hlog).sources_eq,
    CompilationUnit.calls, List.flatMap_singleton]
  rfl

/-- Silent phases call each of their operations on every source. -/
theorem notes_after (hops : ∀ op ∈ unit.operations, op.RewritesScript) {phases : List Phase}
    {n : Nat} (hphases : phases <+: Phase.all.drop n) (h : d.Stage unit.noting n)
    (hd : d.log.messages = []) (hsilent : d.Silent unit.noting phases) :
    (d.after unit.noting phases).operationState.2 = d.operationState.2 ++ unit.calls phases := by
  induction phases generalizing d n with
  | nil => exact (List.append_nil _).symm
  | cons phase phases ih =>
    obtain ⟨later, hlater⟩ := hphases
    obtain ⟨rfl, hdrop⟩ := Phase.index_of_drop hlater.symm
    obtain ⟨hstep, hpass⟩ := messages_of_not_reports hd hsilent.1
    have hnext := h.pass (CompilationUnit.rewritesScript_noting hops) hd hsilent.1
    have hafter := ih ⟨later, hdrop.symm⟩ hnext hpass hsilent.2
    rw [notes_pass hops h hstep, List.append_assoc, ← CompilationUnit.calls_append] at hafter
    exact hafter

/-- The first phase that reports calls its operations only if its step reports nothing. -/
theorem notes_ending (hops : ∀ op ∈ unit.operations, op.RewritesScript) {before later : List Phase}
    (hall : Phase.all = before ++ phase :: later) (h : d.Stage unit.noting 0)
    (hd : d.log.messages = []) (hsilent : d.Silent unit.noting before)
    (hlog : (d.after unit.noting before).log.messages = []) :
    ((d.after unit.noting before).ending unit.noting phase).operationState.2 =
      d.operationState.2 ++ (unit.calls before ++
        if (d.after unit.noting before).StepReports unit.noting phase then []
        else unit.calls [phase]) := by
  have hbefore : before <+: Phase.all.drop 0 := ⟨phase :: later, hall.symm⟩
  have hnotes := notes_after hops hbefore h hd hsilent
  rw [ending]
  by_cases hstep : (d.after unit.noting before).StepReports unit.noting phase
  · rw [if_pos hstep, if_pos hstep, operationState_phaseStep, hnotes, List.append_nil]
  · have hstage : (d.after unit.noting before).Stage unit.noting phase.index := by
      rw [Phase.index_of_all hall, ← Nat.zero_add before.length]
      exact h.after (CompilationUnit.rewritesScript_noting hops) hbefore hd hsilent
    rw [if_neg hstep, if_neg hstep,
      notes_pass hops hstage ((Decidable.not_not.mp hstep).trans hlog), hnotes, List.append_assoc]

end Notes

end Compilation

/-! ## Compilations -/

namespace CompilationUnit

open Compilation

variable {ρ τ : Type} {unit : CompilationUnit ρ τ} {w : World} {resolverState : ρ}
  {operationState : τ}

theorem compile_of_silent
    (hsilent : (unit.start w resolverState operationState).Silent unit Phase.all)
    (hwrite : NoWriteError (unit.compile w resolverState operationState).1) :
    unit.compile w resolverState operationState =
      (.ok (), (unit.start w resolverState operationState).after unit Phase.all) := by
  rw [compile_eq, ← List.append_nil Phase.all] at hwrite ⊢
  exact (runPhases_of_silent [] rfl hsilent hwrite).1

theorem compile_of_reports {before later : List Phase} {phase : Phase}
    (hall : Phase.all = before ++ phase :: later) :
    let reached := (unit.start w resolverState operationState).after unit before
    (unit.start w resolverState operationState).Silent unit before → reached.Reports unit phase →
      NoWriteError (unit.compile w resolverState operationState).1 →
        unit.compile w resolverState operationState =
            (.error (.multiple phase (reached.ending unit phase).log), reached.ending unit phase) ∧
          (reached.ending unit phase).log.messages ≠ [] ∧ reached.log.messages = [] := by
  intro reached hsilent hreports hwrite
  rw [compile_eq, hall] at hwrite ⊢
  exact runPhases_of_reports later rfl hsilent hreports hwrite

/-- A compilation ends with the first phase that reports something, if there is one, with what that
phase has reported. The operations of the phases before were called, each on every source in order;
those of the phase itself were only called if its step has reported nothing, and those of later
phases were not. Before the output no file is touched. If no phase reports anything, there is a
class of every source. -/
theorem compile_ends_at_first_report (hops : ∀ op ∈ unit.operations, op.RewritesScript)
    (hwrite : NoWriteError (unit.compile w resolverState operationState).1) :
    let start := unit.start w resolverState operationState
    let noted := unit.noting.compile w resolverState (operationState, [])
    unit.compile w resolverState operationState = (noted.1, noted.2.forget) ∧
      (start.Silent unit Phase.all ∨ ∃ before phase later, Phase.all = before ++ phase :: later ∧
        start.Silent unit before ∧ (start.after unit before).Reports unit phase) ∧
      (∀ before phase later, Phase.all = before ++ phase :: later → start.Silent unit before →
        (start.after unit before).Reports unit phase →
        let reached := (start.after unit before).ending unit phase
        unit.compile w resolverState operationState =
            (.error (.multiple phase reached.log), reached) ∧
          reached.log.messages ≠ [] ∧ (start.after unit before).log.messages = [] ∧
          noted.2.operationState.2 = unit.calls before ++
            (if (start.after unit before).StepReports unit phase then [] else unit.calls [phase]) ∧
          (.output ∈ later → (∀ files, unit.resolver.Keeps fun s ↦ s.2.files = files) →
            reached.world.files = w.files)) ∧
      (start.Silent unit Phase.all →
        (unit.compile w resolverState operationState).1 = .ok () ∧
          (unit.compile w resolverState operationState).2.classes.map (·.name) =
            unit.sources.map (·.name) ∧
          noted.2.operationState.2 = unit.calls Phase.all) := by
  intro start noted
  have hforget : unit.compile w resolverState operationState = (noted.1, noted.2.forget) :=
    unit.forget_noting w resolverState operationState []
  have hnoted : NoWriteError noted.1 := by rwa [hforget] at hwrite
  let first := unit.noting.start w resolverState (operationState, [])
  have hstage : first.Stage unit.noting 0 :=
    unit.noting.stage_start w resolverState (operationState, [])
  refine ⟨hforget, silent_or_exists_first start Phase.all,
    fun before phase later hall hsilent hreports ↦ ?_, fun hsilent ↦ ?_⟩
  · -- The same phase is the first to report when calls are noted, so the notes end there too.
    have hafter : start.after unit before = (first.after unit.noting before).forget :=
      forget_after unit before first
    have hreports' : (first.after unit.noting before).Reports unit.noting phase := by
      rwa [hafter, reports_forget] at hreports
    obtain ⟨hrun, herrors, hlog⟩ := compile_of_reports hall hsilent hreports hwrite
    obtain ⟨hnoting, -, hlog'⟩ :=
      compile_of_reports hall (silent_forget.mp hsilent) hreports' hnoted
    refine ⟨hrun, herrors, hlog, ?_, fun houtput hresolver ↦ ?_⟩
    · have hnotes := notes_ending hops hall hstage rfl (silent_forget.mp hsilent) hlog'
      rw [show noted.2 = _ from congrArg Prod.snd hnoting, hnotes, hafter]
      simp only [stepReports_forget]
      rfl
    · obtain ⟨hbefore, hphase⟩ := Phase.not_output_of_all hall houtput
      exact (files_ending hresolver hphase _).trans (files_after hresolver hbefore start)
  · have hrun := compile_of_silent hsilent hwrite
    have hnoting := compile_of_silent (silent_forget.mp hsilent) hnoted
    refine ⟨congrArg Prod.fst hrun, ?_, ?_⟩
    · have hlast := (unit.stage_start w resolverState operationState).after hops List.prefix_rfl rfl
        hsilent
      rw [hrun]
      exact hlast.classes
    · have hnotes := notes_after hops List.prefix_rfl hstage rfl (silent_forget.mp hsilent)
      rw [show noted.2 = _ from congrArg Prod.snd hnoting]
      exact hnotes

/-- Answers the same for every source. -/
def answering (phase : Phase) (answer : Except CompileError Unit) : Operation Unit where
  phase := phase
  call u s := (answer, u, s)

/-- Two scripts and three operations, the second of which fails. -/
def twoScripts : CompilationUnit Unit Unit where
  configuration := {}
  loader := 0
  sources := [⟨"1", "A", scriptCodeBase⟩, ⟨"2", "B", scriptCodeBase⟩]
  operations := [answering .parsing (.ok ()), answering .conversion (.error (.operation "refused")),
    answering .semanticAnalysis (.ok ())]
  resolver := ⟨fun _ s ↦ (false, s)⟩

theorem twoScripts_ends_with_conversion :
    ((∀ op ∈ twoScripts.operations, op.RewritesScript) ∧
      NoWriteError (twoScripts.compile {} () ()).1) ∧
    (∃ log c, twoScripts.compile {} () () = (.error (.multiple .conversion log), c) ∧
      log.messages ≠ [] ∧ c.world.files = {}) ∧
    (twoScripts.noting.compile {} () ((), [])).2.operationState.2.map (fun x ↦ (x.1, x.2.name)) =
      [(0, "A"), (0, "B"), (1, "A"), (1, "B")] := by
  have hops : ∀ op ∈ twoScripts.operations, op.RewritesScript := by
    have hanswering (phase answer) : (answering phase answer).RewritesScript :=
      ⟨fun _ _ ↦ rfl, fun _ _ ↦ rfl, fun _ _ ↦ rfl⟩
    exact List.forall_mem_cons.mpr ⟨hanswering _ _, List.forall_mem_cons.mpr
      ⟨hanswering _ _, List.forall_mem_singleton.mpr (hanswering _ _)⟩⟩
  have hwrite : NoWriteError (twoScripts.compile {} () ()).1 :=
    noWriteError_runPhases rfl Phase.all (twoScripts.start {} () ())
  obtain ⟨-, -, hends, -⟩ := compile_ends_at_first_report hops hwrite
  obtain ⟨hrun, herrors, -, hnotes, hfiles⟩ := hends [.initialization, .parsing] .conversion _ rfl
    ⟨by decide +kernel, by decide +kernel, trivial⟩ (by decide +kernel)
  refine ⟨⟨hops, hwrite⟩, ⟨_, _, hrun, herrors, hfiles (by decide) fun _ _ _ hs ↦ hs⟩, ?_⟩
  have hstep : ¬((twoScripts.start {} () ()).after twoScripts
      [.initialization, .parsing]).StepReports twoScripts .conversion := by decide +kernel
  rw [hnotes, if_neg hstep]
  rfl

end CompilationUnit

end BuildScript
