import BuildScript.Proofs.Bytecode.WellFormed
import BuildScript.Proofs.Compile.PhaseRuns

/-!
# Compilations of one source

A compilation of a single source that succeeds has parsed it, resolved it, made one class node of it
and one class file of the node, and has written that file. Operations may change the script on the
way, at the end of any phase; what counts is the script at the end of the analysis, that is, of the
phases before instructions are selected.

There is one lemma for each phase that does something, about its step alone. What operations add is
the same for all phases, so `runPhase_of_onlyOf` treats it once.
-/

namespace BuildScript

/-- The operation may change the script of a source, if there is one, and nothing else of it. -/
structure Operation.RewritesScript {τ : Type} (op : Operation τ) : Prop where
  source : ∀ u s, (op.call u s).2.1.source = u.source
  classNodes : ∀ u s, (op.call u s).2.1.classNodes = u.classNodes
  script : ∀ u s, (op.call u s).2.1.script.isSome = u.script.isSome

/-- The phases in which scripts are read and their names are resolved. -/
def Phase.resolution : List Phase := [initialization, parsing, conversion, semanticAnalysis]

/-- The phases up to that in which scripts are complete. -/
def Phase.analysis : List Phase := resolution ++ [canonicalization]

/-- The phases in which classes are made of scripts. -/
def Phase.generation : List Phase := [instructionSelection, classGeneration, output, finalization]

theorem Phase.all_eq : all = analysis ++ generation := rfl

theorem ne_nil_of_parse {text : String} {errors : List SyntaxError} (h : parse text = .error errors) :
    errors ≠ [] := by
  rintro rfl
  rw [parse] at h
  split at h
  next tokens _ =>
    rw [parseTokens] at h
    dsimp only at h
    split at h
    · cases h
    · next hempty =>
      have hnil := Except.error.inj h
      rw [List.reverse_eq_nil_iff] at hnil
      rw [hnil] at hempty
      exact hempty rfl
  next errors herrors =>
    have hnil := List.map_eq_nil_iff.mp (Except.error.inj h)
    rw [tokenize] at herrors
    dsimp only at herrors
    split at herrors
    · cases herrors
    · next hempty =>
      rw [Except.error.inj herrors, hnil] at hempty
      exact hempty rfl

namespace Compilation

variable {ρ τ : Type} {unit : CompilationUnit ρ τ} {c c' : Compilation ρ τ} {u : SourceUnit}
  {classes : List CompiledClass} {phase : Phase}

/-! ## Runs that succeed -/

theorem runPhases_cons_eq_ok {phases : List Phase} :
    c.runPhases unit (phase :: phases) = (.ok (), c') ↔
      ∃ c₁, c.runPhase unit phase = (.ok (), c₁) ∧ c₁.runPhases unit phases = (.ok (), c') := by
  rw [runPhases]
  rcases c.runPhase unit phase with ⟨_ | ⟨⟨⟩⟩, c₁⟩
  · simp
  · simp

theorem runPhases_append_eq_ok {phases phases' : List Phase} :
    c.runPhases unit (phases ++ phases') = (.ok (), c') ↔
      ∃ c₁, c.runPhases unit phases = (.ok (), c₁) ∧ c₁.runPhases unit phases' = (.ok (), c') := by
  induction phases generalizing c with
  | nil => simp [runPhases]
  | cons phase phases ih =>
    rw [List.cons_append, runPhases_cons_eq_ok]
    simp only [runPhases_cons_eq_ok, ih]
    grind

theorem hasErrors_eq_false_iff : c.log.hasErrors = false ↔ c.log.messages = [] := by
  rw [MessageLog.hasErrors, Bool.not_eq_false', List.isEmpty_iff]

/-- A phase that succeeds has done its step and its operations without errors. -/
theorem runPhase_eq_ok (h : c.runPhase unit phase = (.ok (), c')) :
    ∃ c₁, c.phaseStep unit phase = (.ok (), c₁) ∧ c₁.log.messages = [] ∧
      c' = c₁.operateAll unit phase ∧ c'.log.messages = [] := by
  rw [runPhase] at h
  split at h
  next => cases h
  next c₁ hstep =>
    dsimp only at h
    cases herrors : c₁.log.hasErrors with
    | true =>
      rw [herrors, if_pos rfl, herrors, if_pos rfl] at h
      cases h
    | false =>
      rw [herrors, if_neg Bool.false_ne_true] at h
      cases hafter : (c₁.operateAll unit phase).log.hasErrors with
      | true =>
        rw [hafter, if_pos rfl] at h
        cases h
      | false =>
        rw [hafter, if_neg Bool.false_ne_true] at h
        cases h
        exact ⟨c₁, hstep, hasErrors_eq_false_iff.mp herrors, rfl, hasErrors_eq_false_iff.mp hafter⟩

/-! ## One source -/

/-- Nothing is compiled but this source, and no error was found. -/
structure OnlyOf (c : Compilation ρ τ) (u : SourceUnit) (classes : List CompiledClass) : Prop where
  units : c.units = [u]
  classes : c.classes = classes
  log : c.log.messages = []

/-- Calls operations in order, each on every source. -/
def operateEach (phase : Phase) (ops : List (Operation τ)) (c : Compilation ρ τ) :
    Compilation ρ τ :=
  ops.foldl (fun c op ↦ c.units.foldl (operate phase op) { c with units := [] }) c

theorem operateAll_eq (unit : CompilationUnit ρ τ) (phase : Phase) (c : Compilation ρ τ) :
    c.operateAll unit phase =
      c.operateEach phase (unit.operations.filter (·.phase == phase)) := rfl

theorem operateEach_append (ops ops' : List (Operation τ)) :
    c.operateEach phase (ops ++ ops') = (c.operateEach phase ops).operateEach phase ops' :=
  List.foldl_append

theorem operateEach_singleton (op : Operation τ) (hunits : c.units = [u]) :
    c.operateEach phase [op] = operate phase op { c with units := [] } u := by
  rw [operateEach, List.foldl_cons, List.foldl_nil, hunits]
  rfl

/-- An operation that rewrites scripts leaves one source with perhaps another script. -/
theorem exists_script_of_operate (phase : Phase) {op : Operation τ} (hop : op.RewritesScript)
    (hunits : c.units = []) : ∃ script, (operate phase op c u).units = [{ u with script }] ∧
      script.isSome = u.script.isSome ∧ (operate phase op c u).classes = c.classes := by
  rw [operate]
  generalize hcall : op.call u c.operationState = called
  obtain ⟨result, ⟨source, script, nodes⟩, state⟩ := called
  have hsource := hop.source u c.operationState
  have hnodes := hop.classNodes u c.operationState
  have hscript := hop.script u c.operationState
  rw [hcall] at hsource hnodes hscript
  obtain rfl : source = u.source := hsource
  obtain rfl : nodes = u.classNodes := hnodes
  refine ⟨script, ?_, hscript, ?_⟩
  · rw [hunits]
    cases result <;> rfl
  · cases result <;> rfl

theorem exists_script_of_operateEach {ops : List (Operation τ)}
    (hops : ∀ op ∈ ops, op.RewritesScript) (hunits : c.units = [u]) :
    ∃ script, (c.operateEach phase ops).units = [{ u with script }] ∧
      script.isSome = u.script.isSome ∧ (c.operateEach phase ops).classes = c.classes := by
  refine List.foldlRecOn (motive := fun d : Compilation ρ τ ↦ ∃ script,
    d.units = [{ u with script }] ∧ script.isSome = u.script.isSome ∧ d.classes = c.classes) _ _
    ⟨u.script, hunits, rfl, rfl⟩ fun d hd op hop ↦ ?_
  obtain ⟨script, hd, hsome, hclasses⟩ := hd
  rw [hd, List.foldl_cons, List.foldl_nil]
  obtain ⟨script', hunits', hsome', hclasses'⟩ :=
    exists_script_of_operate (c := { d with units := [] }) (u := { u with script }) phase
      (hops op hop) rfl
  exact ⟨script', hunits', hsome'.trans hsome, hclasses'.trans hclasses⟩

/-- Behind the step of a phase its operations may have changed the script once more. -/
theorem runPhase_of_onlyOf (hops : ∀ op ∈ unit.operations, op.RewritesScript)
    (hrun : c.runPhase unit phase = (.ok (), c')) :
    ∃ c₁, c.phaseStep unit phase = (.ok (), c₁) ∧ c₁.log.messages = [] ∧
      ∀ {u classes}, c₁.OnlyOf u classes →
        ∃ script, c'.OnlyOf { u with script } classes ∧ script.isSome = u.script.isSome := by
  obtain ⟨c₁, hstep, hlog, rfl, hlog'⟩ := runPhase_eq_ok hrun
  refine ⟨c₁, hstep, hlog, fun {u classes} honly ↦ ?_⟩
  rw [operateAll_eq] at hlog' ⊢
  obtain ⟨script, hunits, hsome, hclasses⟩ :=
    exists_script_of_operateEach (fun op hop ↦ hops op (List.mem_of_mem_filter hop)) honly.units
  exact ⟨script, ⟨hunits, hclasses.trans honly.classes, hlog'⟩, hsome⟩

/-! ## The steps of the phases -/

variable {source : CodeSource} {script : Script}

theorem messages_of_report {messages : List Message} (h : (c.report messages).log.messages = []) :
    c.log.messages = [] ∧ messages = [] := by
  rw [report, MessageLog.add] at h
  exact List.append_eq_nil_iff.mp h

theorem parseSources_singleton (log : MessageLog) (u : SourceUnit) :
    parseSources [] log [u] =
      match parse u.source.text with
      | .ok script => ([{ u with script := some script }], log)
      | .error errors =>
        ([u], log.add (errors.map fun (e : SyntaxError) ↦
          Message.located ⟨e.message, e.span⟩ u.source.name u.source.text)) := by
  rw [parseSources]
  cases parse u.source.text with
  | ok script =>
    dsimp only
    split <;> rfl
  | error errors =>
    dsimp only
    split <;> rfl

/-- Parsing without errors gives the source a script. -/
theorem onlyOf_parsing (h : c.OnlyOf { source } []) (hstep : c.phaseStep unit .parsing = (.ok (), c'))
    (hlog : c'.log.messages = []) :
    ∃ script, c'.OnlyOf { source, script := some script } [] := by
  rw [phaseStep, h.units, parseSources_singleton] at hstep
  dsimp only at hstep
  split at hstep
  next script _ =>
    cases hstep
    exact ⟨script, rfl, h.classes, hlog⟩
  next errors herrors =>
    cases hstep
    rw [MessageLog.add, List.append_eq_nil_iff, List.map_eq_nil_iff] at hlog
    exact absurd hlog.2 (ne_nil_of_parse herrors)

/-- Names are resolved in the script, which then has others perhaps. -/
theorem onlyOf_semanticAnalysis (h : c.OnlyOf { source, script := some script } [])
    (hstep : c.phaseStep unit .semanticAnalysis = (.ok (), c')) (hlog : c'.log.messages = []) :
    ∃ script, c'.OnlyOf { source, script := some script } [] := by
  have hc' : c' = c.resolveSources unit := (congrArg Prod.snd hstep).symm
  rw [resolveSources] at hc'
  dsimp only at hc'
  split at hc'
  · rw [h.units, List.foldl_cons, List.foldl_nil, resolveSource] at hc'
    dsimp only at hc'
    rw [hc'] at hlog
    rw [hc']
    exact ⟨_, rfl, h.classes, hlog⟩
  all_goals
    rw [hc'] at hlog
    exact absurd (messages_of_report hlog).2 (List.cons_ne_nil _ _)

/-- The class node that was made has passed the checks. -/
theorem onlyOf_instructionSelection (h : c.OnlyOf { source, script := some script } [])
    (hstep : c.phaseStep unit .instructionSelection = (.ok (), c')) (hlog : c'.log.messages = []) :
    let node := ClassNode.ofScript source.name unit.configuration.scriptBaseClass script
    node.verify = .ok () ∧
      c'.OnlyOf { source, script := some script, classNodes := [node] } [] := by
  intro node
  have hc' : c' = selectSource unit { c with units := [] } { source, script := some script } := by
    rw [phaseStep, h.units] at hstep
    exact (congrArg Prod.snd hstep).symm
  rw [selectSource] at hc'
  dsimp only at hc'
  split at hc'
  next hverify =>
    rw [hc'] at hlog ⊢
    exact ⟨hverify, rfl, h.classes, hlog⟩
  all_goals
    rw [hc'] at hlog
    exact absurd (messages_of_report hlog).2 (List.cons_ne_nil _ _)

/-- The class file that was made of the node, as it is written. -/
theorem onlyOf_classGeneration {script : Option Script} {node : ClassNode}
    (h : c.OnlyOf { source, script, classNodes := [node] } [])
    (hstep : c.phaseStep unit .classGeneration = (.ok (), c')) (hlog : c'.log.messages = []) :
    ∃ file, node.compile unit.configuration.debug = .ok file ∧
      c'.OnlyOf { source, script, classNodes := [node] }
        [⟨file.name, unit.encode { file with sourceFile := some source.name }.parts⟩] := by
  have hc' : c' = generateClass unit source c node := by
    rw [phaseStep, h.units] at hstep
    exact (congrArg Prod.snd hstep).symm
  rw [generateClass] at hc'
  dsimp only at hc'
  split at hc'
  next =>
    rw [hc'] at hlog
    exact absurd (messages_of_report hlog).2 (List.cons_ne_nil _ _)
  next file hfile =>
    rw [hc'] at hlog ⊢
    refine ⟨file, hfile, h.units, ?_, hlog⟩
    rw [h.classes]
    rfl

/-- The one class file is written below the target directory. -/
theorem onlyOf_output {target : Path} {k : CompiledClass} (h : c.OnlyOf u [k])
    (htarget : unit.configuration.targetDirectory = some target)
    (hstep : c.phaseStep unit .output = (.ok (), c')) :
    c'.OnlyOf u [k] ∧ (FileTree.writeBelow (target.classFile k.name) k.bytes).run c.world.files =
      (.ok (), c'.world.files) := by
  rw [phaseStep, htarget] at hstep
  dsimp only at hstep
  rw [h.classes, writeClasses_cons, World.onFiles_eq] at hstep
  dsimp only at hstep
  generalize (FileTree.writeBelow (target.classFile k.name) k.bytes).run c.world.files = outcome
    at hstep ⊢
  obtain ⟨_ | ⟨⟨⟩⟩, files⟩ := outcome
  · cases hstep
  · cases hstep
    exact ⟨⟨h.units, rfl, h.log⟩, rfl⟩

/-! ## The compilation -/

/-- A phase without a step of its own changes at most the script. -/
theorem exists_script_of_idle (hops : ∀ op ∈ unit.operations, op.RewritesScript)
    (hidle : c.phaseStep unit phase = (.ok (), c)) (h : c.OnlyOf u classes)
    (hrun : c.runPhase unit phase = (.ok (), c')) :
    ∃ script, c'.OnlyOf { u with script } classes ∧ script.isSome = u.script.isSome := by
  obtain ⟨c₁, hstep, -, hafter⟩ := runPhase_of_onlyOf hops hrun
  cases hidle.symm.trans hstep
  exact hafter h

theorem exists_script_of_resolution (hops : ∀ op ∈ unit.operations, op.RewritesScript)
    (h : c.OnlyOf { source } []) (hrun : c.runPhases unit Phase.resolution = (.ok (), c')) :
    ∃ script, c'.OnlyOf { source, script := some script } [] := by
  obtain ⟨c₁, hinitialization, hrun⟩ := runPhases_cons_eq_ok.mp hrun
  obtain ⟨c₂, hparsing, hrun⟩ := runPhases_cons_eq_ok.mp hrun
  obtain ⟨c₃, hconversion, hrun⟩ := runPhases_cons_eq_ok.mp hrun
  obtain ⟨c₄, hsemantic, hrun⟩ := runPhases_cons_eq_ok.mp hrun
  cases hrun
  obtain ⟨script₁, hc₁, hsome⟩ := exists_script_of_idle hops rfl h hinitialization
  obtain rfl : script₁ = none := Option.not_isSome_iff_eq_none.mp (by simp [hsome])
  obtain ⟨d₂, hstep, hlog, hafter⟩ := runPhase_of_onlyOf hops hparsing
  obtain ⟨script, hd₂⟩ := onlyOf_parsing hc₁ hstep hlog
  obtain ⟨script₂, hc₂, hsome⟩ := hafter hd₂
  obtain ⟨script₃, hc₃, hsome'⟩ := exists_script_of_idle hops rfl hc₂ hconversion
  obtain ⟨script₃, rfl⟩ := Option.isSome_iff_exists.mp (hsome'.trans hsome)
  obtain ⟨d₄, hstep, hlog, hafter⟩ := runPhase_of_onlyOf hops hsemantic
  obtain ⟨script, hd₄⟩ := onlyOf_semanticAnalysis hc₃ hstep hlog
  obtain ⟨script₄, hc₄, hsome⟩ := hafter hd₄
  obtain ⟨script₄, rfl⟩ := Option.isSome_iff_exists.mp hsome
  exact ⟨script₄, hc₄⟩

/-- The analysis ends with a script. -/
theorem exists_script_of_analysis (hops : ∀ op ∈ unit.operations, op.RewritesScript)
    (h : c.OnlyOf { source } []) (hrun : c.runPhases unit Phase.analysis = (.ok (), c')) :
    ∃ script, c'.OnlyOf { source, script := some script } [] := by
  obtain ⟨c₁, hresolution, hrun⟩ := runPhases_append_eq_ok.mp hrun
  obtain ⟨c₂, hcanonicalization, hrun⟩ := runPhases_cons_eq_ok.mp hrun
  cases hrun
  obtain ⟨script₁, hc₁⟩ := exists_script_of_resolution hops h hresolution
  obtain ⟨script₂, hc₂, hsome⟩ := exists_script_of_idle hops rfl hc₁ hcanonicalization
  obtain ⟨script₂, rfl⟩ := Option.isSome_iff_exists.mp hsome
  exact ⟨script₂, hc₂⟩

/-- A class file is made of the script and written. -/
theorem exists_class_of_generation {target : Path}
    (hops : ∀ op ∈ unit.operations, op.RewritesScript)
    (hresolver : ∀ files, unit.resolver.Keeps fun s ↦ s.2.files = files)
    (htarget : unit.configuration.targetDirectory = some target)
    (h : c.OnlyOf { source, script := some script } [])
    (hrun : c.runPhases unit Phase.generation = (.ok (), c')) :
    let node := ClassNode.ofScript source.name unit.configuration.scriptBaseClass script
    node.verify = .ok () ∧ ∃ file, node.compile unit.configuration.debug = .ok file ∧
      (FileTree.writeBelow (target.classFile file.name)
        (unit.encode { file with sourceFile := some source.name }.parts)).run c.world.files =
          (.ok (), c'.world.files) := by
  intro node
  have hfiles {phase : Phase} (hphase : phase ≠ .output) {c c' : Compilation ρ τ}
      (hrun : c.runPhase unit phase = (.ok (), c')) : c'.world.files = c.world.files := by
    have hkept : (c.runPhase unit phase).2.world.files = c.world.files :=
      keeps_runPhase (World.keptByLoading_files c.world.files) (hresolver _) hphase c rfl
    rwa [hrun] at hkept
  obtain ⟨c₁, hselection, hrun⟩ := runPhases_cons_eq_ok.mp hrun
  obtain ⟨c₂, hgeneration, hrun⟩ := runPhases_cons_eq_ok.mp hrun
  obtain ⟨c₃, houtput, hrun⟩ := runPhases_cons_eq_ok.mp hrun
  obtain ⟨c₄, hfinalization, hrun⟩ := runPhases_cons_eq_ok.mp hrun
  cases hrun
  obtain ⟨d₁, hstep, hlog, hops₁⟩ := runPhase_of_onlyOf hops hselection
  obtain ⟨hverify, hd₁⟩ := onlyOf_instructionSelection h hstep hlog
  obtain ⟨script₁, hc₁, -⟩ := hops₁ hd₁
  obtain ⟨d₂, hstep, hlog, hops₂⟩ := runPhase_of_onlyOf hops hgeneration
  obtain ⟨file, hfile, hd₂⟩ := onlyOf_classGeneration hc₁ hstep hlog
  obtain ⟨script₂, hc₂, -⟩ := hops₂ hd₂
  obtain ⟨d₃, hstep, hlog, hops₃⟩ := runPhase_of_onlyOf hops houtput
  obtain ⟨hd₃, hwritten⟩ := onlyOf_output hc₂ htarget hstep
  refine ⟨hverify, file, hfile, ?_⟩
  have hd₃c₃ : c₃.world = d₃.world := by
    obtain ⟨d, hstep', -, rfl, -⟩ := runPhase_eq_ok houtput
    cases hstep.symm.trans hstep'
    exact world_operateAll unit .output _
  rw [hfiles (by decide) hfinalization, hd₃c₃]
  rw [hfiles (by decide) hgeneration, hfiles (by decide) hselection] at hwritten
  exact hwritten

end Compilation

end BuildScript
