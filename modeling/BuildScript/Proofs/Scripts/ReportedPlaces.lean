import BuildScript.Proofs.Compile.FailingPhases
import BuildScript.Proofs.Scripts.CompileRuns
import BuildScript.Proofs.Scripts.Findings
import BuildScript.Proofs.Syntax.OrderedErrors

/-!
# The places that a failed compilation reports

A script that does not compile is reported with the messages of one phase. Those that point at a
place of the text are the syntax errors of the text, or the imports of its script that no class is
known for: nothing else is reported with a place. Both come in source order, so the first of them
is in the first line, as long as 32 bits are enough for the lines of the text.

Star imports that are added to every script have no place, but they cannot be unresolved either: a
package is only a prefix for candidates. What carries the order through the phases is therefore
that the imports of classes stay as they were parsed.
-/

namespace BuildScript

/-! ## Messages at places -/

/-- The error, if the message points at a place. -/
def Message.error? : Message → Option SourceError
  | located e _ _ => some e
  | general _ _ => none

/-- The errors at places, in the order in which they were reported. -/
def MessageLog.errors (log : MessageLog) : List SourceError := log.messages.filterMap (·.error?)

def CompilationFailure.errors : CompilationFailure → List SourceError
  | multiple _ log => log.errors
  | output _ _ _ => []

/-- What the compilation of a script reported at places. -/
def ScriptError.errors : ScriptError → List SourceError
  | scriptCompilationFailed _ _ cause => cause.errors
  | _ => []

theorem ScriptError.eq_of_errors_ne_nil {e : ScriptError} (h : e.errors ≠ []) :
    ∃ name line phase log,
      e = .scriptCompilationFailed name line (.multiple phase log) ∧ e.errors = log.errors := by
  cases e with
  | scriptCompilationFailed name line cause =>
    cases cause with
    | multiple phase log => exact ⟨name, line, phase, log, rfl, rfl⟩
    | output => exact absurd rfl h
  | _ => exact absurd rfl h

namespace MessageLog

variable {log : MessageLog}

theorem errors_of_nil (h : log.messages = []) : log.errors = [] := by rw [errors, h]; rfl

theorem errors_add (log : MessageLog) (messages : List Message) :
    (log.add messages).errors = log.errors ++ messages.filterMap (·.error?) := List.filterMap_append

theorem filterMap_located {α : Type} (f : α → SourceError) (name text : String) (l : List α) :
    (l.map fun a ↦ Message.located (f a) name text).filterMap (·.error?) = l.map f := by
  rw [List.filterMap_map]
  exact congrFun List.filterMap_eq_map' l

theorem errors_rename (log : MessageLog) (name : String) :
    (log.rename name).errors = log.errors := by
  rw [errors, rename, List.filterMap_map]
  congr 1
  funext m
  cases m <;> rfl

theorem firstPlace?_eq (log : MessageLog) :
    log.firstPlace?.map (·.2) = log.errors.head?.map (·.span.line) := by
  rw [firstPlace?, errors]
  induction log.messages with
  | nil => rfl
  | cons m messages ih =>
    cases m with
    | located e name text => rfl
    | general message name => exact ih

end MessageLog

/-! ## Unresolved imports -/

def Import.unresolved (i : Import) : SourceError :=
  ⟨"unable to resolve class " ++ i.className, i.span⟩

theorem Scope.addImports_errors {σ : Type} (r : Resolver σ) (imports : List Import)
    (errors : List SourceError) (s : Scope σ) : ∃ missing : List Import,
      missing.Sublist imports ∧
        (s.addImports r errors imports).1 = errors.reverse ++ missing.map (·.unresolved) := by
  induction imports generalizing errors s with
  | nil => exact ⟨[], .slnil, (List.append_nil _).symm⟩
  | cons i imports ih =>
    rw [addImports]
    dsimp only
    rw [addImport]
    dsimp only
    split
    next =>
      obtain ⟨missing, hsub, heq⟩ := ih errors _
      exact ⟨missing, hsub.cons i, heq⟩
    next =>
      obtain ⟨missing, hsub, heq⟩ := ih (i.unresolved :: errors) _
      refine ⟨i :: missing, hsub.cons_cons i, heq.trans ?_⟩
      rw [List.reverse_cons, List.append_assoc]
      rfl

/-- Resolving reports some of the imports, in order, and leaves them all in the script. -/
theorem Script.resolve_errors {σ : Type} (r : Resolver σ) (script : Script) (state : σ) :
    (∃ missing : List Import, missing.Sublist script.imports ∧
      (script.resolve r state).1 = missing.map (·.unresolved)) ∧
    (script.resolve r state).2.1.imports = script.imports := by
  rw [Script.resolve]
  exact ⟨Scope.addImports_errors r script.imports [] _, rfl⟩

/-- What is reported at places of a text: its syntax errors, or imports of its script. -/
inductive Told (text : String) : List SourceError → Prop
  | none : Told text []
  | unparsed {errors : List SyntaxError} (h : parse text = .error errors) :
    Told text (errors.map fun e ↦ ⟨e.message, e.span⟩)
  | unresolved {script : Script} {missing : List Import} (h : parse text = .ok script)
    (hsub : missing.Sublist script.imports) : Told text (missing.map (·.unresolved))

theorem Told.inOrder {text : String} {errors : List SourceError} (h : Told text errors) :
    InOrder text.toList (errors.map (·.span)) := by
  induction h with
  | none => exact .nil
  | unparsed h =>
    rw [List.map_map]
    exact (inOrder_of_parse_error h).1
  | unresolved h hsub =>
    rw [List.map_map]
    exact (inOrder_imports h).sublist (hsub.map _)

/-! ## The imports of a script on its way -/

/-- The operation leaves the source alone, and the imports of classes. -/
structure Operation.KeepsImports {τ : Type} (op : Operation τ) : Prop where
  source : ∀ u s, (op.call u s).2.1.source = u.source
  imports : ∀ u s, (op.call u s).2.1.script.map (·.imports) = u.script.map (·.imports)

theorem Operation.keepsImports_addStarImports {τ : Type} (packages : List String) :
    (addStarImports packages : Operation τ).KeepsImports where
  source _ _ := rfl
  imports u s := by
    have hkept (script : Script) : (packages.foldl Script.addStarImport script).imports =
        script.imports := by
      refine List.foldlRecOn (motive := fun script' : Script ↦ script'.imports = script.imports) _ _
        rfl fun script' h package _ ↦ ?_
      rw [Script.addStarImport]
      split <;> exact h
    rw [show (((addStarImports packages : Operation τ).call u s).2.1.script) =
      u.script.map (packages.foldl Script.addStarImport) from rfl, Option.map_map]
    exact congrArg (Option.map · u.script) (funext hkept)

theorem Operation.KeepsImports.onFirst {σ τ : Type} {op : Operation σ} (h : op.KeepsImports) :
    (op.onFirst : Operation (σ × τ)).KeepsImports where
  source u s := h.source u s.1
  imports u s := h.imports u s.1

theorem Operation.KeepsImports.onSecond {σ τ : Type} {op : Operation τ} (h : op.KeepsImports) :
    (op.onSecond : Operation (σ × τ)).KeepsImports where
  source u s := h.source u s.2
  imports u s := h.imports u s.2

theorem Findings.keepsImports_detectPackage : detectPackage.KeepsImports where
  source _ _ := rfl
  imports _ _ := rfl

theorem Findings.keepsImports_detectContent : detectContent.KeepsImports where
  source u f := by rw [call_detectContent]
  imports u f := by rw [call_detectContent]

namespace Compilation

variable {ρ τ : Type} {unit : CompilationUnit ρ τ} {c c' : Compilation ρ τ} {source : CodeSource}
  {phase : Phase}

/-- One source is compiled, and the script that was made of it has the imports of its text. -/
def Carries (source : CodeSource) (c : Compilation ρ τ) : Prop :=
  ∃ u, c.units = [u] ∧ u.source = source ∧
    ∀ script, u.script = some script →
      ∃ parsed, parse source.text = .ok parsed ∧ script.imports = parsed.imports

/-- One source is compiled, and what was reported at places is about its text. -/
structure Tells (source : CodeSource) (c : Compilation ρ τ) : Prop where
  carries : c.Carries source
  told : Told source.text c.log.errors

theorem Carries.tells_of_silent (h : c.Carries source) (hlog : c.log.messages = []) :
    c.Tells source := ⟨h, by rw [MessageLog.errors_of_nil hlog]; exact .none⟩

/-! ### Operations -/

theorem Tells.report_general (h : c.Tells source) (message : String) (name : Option String) :
    (c.report [.general message name]).Tells source where
  carries := h.carries
  told := by
    rw [report, MessageLog.errors_add]
    simpa [Message.error?] using h.told

/-- An operation that fails is reported without a place. -/
theorem Tells.operate {op : Operation τ} (hop : op.KeepsImports) {u : SourceUnit}
    (h : c.Tells source) (hunits : c.units = [u]) :
    (operate phase op { c with units := [] } u).Tells source := by
  obtain ⟨u', hunits', hsource, himports⟩ := h.carries
  obtain rfl : u' = u := by simpa using hunits'.symm.trans hunits
  have hcalled : Tells source { c with
      operationState := (op.call u' c.operationState).2.2
      units := [(op.call u' c.operationState).2.1] } := by
    refine ⟨⟨_, rfl, (hop.source u' _).trans hsource, fun script hscript ↦ ?_⟩, h.told⟩
    have hmap := hop.imports u' c.operationState
    rw [hscript, Option.map_some] at hmap
    obtain ⟨before, hbefore, heq⟩ := Option.map_eq_some_iff.mp hmap.symm
    obtain ⟨parsed, hparsed, hsame⟩ := himports before hbefore
    exact ⟨parsed, hparsed, heq.symm.trans hsame⟩
  rw [Compilation.operate]
  dsimp only
  split
  · exact hcalled
  · exact hcalled.report_general _ _

theorem Tells.operateAll (hops : ∀ op ∈ unit.operations, op.KeepsImports) (h : c.Tells source) :
    (c.operateAll unit phase).Tells source := by
  rw [operateAll_eq]
  refine List.foldlRecOn (motive := fun d : Compilation ρ τ ↦ d.Tells source) _ _ h
    fun d hd op hop ↦ ?_
  obtain ⟨u, hunits, -⟩ := hd.carries
  rw [hunits]
  exact hd.operate (hops op (List.mem_of_mem_filter hop)) hunits

/-! ### The steps of the phases -/

theorem tells_parsing (h : c.Carries source) (hlog : c.log.messages = []) :
    (c.phaseStep unit .parsing).2.Tells source := by
  obtain ⟨u, hunits, rfl, himports⟩ := h
  rw [phaseStep, hunits, parseSources_singleton]
  dsimp only
  split
  next script hparse =>
    refine Carries.tells_of_silent ⟨_, rfl, rfl, ?_⟩ hlog
    rintro _ ⟨⟩
    exact ⟨script, hparse, rfl⟩
  next errors hparse =>
    refine ⟨⟨u, rfl, rfl, himports⟩, ?_⟩
    rw [MessageLog.errors_add, MessageLog.errors_of_nil hlog, List.nil_append,
      MessageLog.filterMap_located]
    exact .unparsed hparse

theorem tells_semanticAnalysis (h : c.Carries source) (hlog : c.log.messages = []) :
    (c.phaseStep unit .semanticAnalysis).2.Tells source := by
  have htells (w : World) : Tells source { c with world := w } :=
    Carries.tells_of_silent (c := { c with world := w }) h hlog
  rw [phaseStep, resolveSources]
  dsimp only
  split
  next =>
    -- The base class could be loaded, so that the imports are looked for.
    obtain ⟨u, hunits, rfl, himports⟩ := h
    rw [hunits, List.foldl_cons, List.foldl_nil, resolveSource]
    dsimp only
    split
    next => exact ⟨⟨u, rfl, rfl, himports⟩, (htells c.world).told⟩
    next script hscript =>
      obtain ⟨parsed, hparsed, hsame⟩ := himports script hscript
      generalize hresolve : script.resolve unit.resolver _ = resolved
      obtain ⟨⟨missing, hsub, herrors⟩, hkept⟩ := script.resolve_errors unit.resolver
        (c.resolverState, (c.world.load unit.loader unit.configuration.scriptBaseClass).2)
      rw [hresolve] at herrors hkept
      refine ⟨⟨_, rfl, rfl, ?_⟩, ?_⟩
      · rintro _ ⟨⟩
        exact ⟨parsed, hparsed, hkept.trans hsame⟩
      · rw [report, MessageLog.errors_add, MessageLog.errors_of_nil hlog, List.nil_append,
          MessageLog.filterMap_located, List.map_id'' fun _ ↦ rfl, herrors]
        exact .unresolved hparsed (hsame ▸ hsub)
  next => exact (htells _).report_general _ _
  next => exact (htells _).report_general _ _

theorem tells_instructionSelection (h : c.Carries source) (hlog : c.log.messages = []) :
    (c.phaseStep unit .instructionSelection).2.Tells source := by
  obtain ⟨u, hunits, rfl, himports⟩ := h
  have htells {nodes : List ClassNode} :
      Tells u.source { c with units := [{ u with classNodes := nodes }] } :=
    Carries.tells_of_silent (c := { c with units := [{ u with classNodes := nodes }] })
      ⟨_, rfl, rfl, himports⟩ hlog
  rw [phaseStep, hunits, List.foldl_cons, List.foldl_nil, selectSource]
  dsimp only
  split
  next => exact htells
  next script _ =>
    split
    next => exact htells
    next => exact htells.report_general _ _
    next => exact htells.report_general _ _

theorem tells_classGeneration (h : c.Carries source) (hlog : c.log.messages = []) :
    (c.phaseStep unit .classGeneration).2.Tells source := by
  have htells := h.tells_of_silent hlog
  obtain ⟨u, hunits, -⟩ := h
  rw [phaseStep, hunits, List.foldl_cons, List.foldl_nil]
  refine List.foldlRecOn (motive := fun d : Compilation ρ τ ↦ d.Tells source) _ _ htells
    fun d hd node _ ↦ ?_
  rw [generateClass]
  split
  next => exact hd.report_general _ _
  next => exact ⟨hd.carries, hd.told⟩

/-- Every phase that finds no earlier reports reports at places what is about the text. -/
theorem tells_phaseStep (h : c.Carries source) (hlog : c.log.messages = []) :
    (c.phaseStep unit phase).2.Tells source := by
  have htells := h.tells_of_silent hlog
  match phase with
  | .parsing => exact tells_parsing h hlog
  | .semanticAnalysis => exact tells_semanticAnalysis h hlog
  | .instructionSelection => exact tells_instructionSelection h hlog
  | .classGeneration => exact tells_classGeneration h hlog
  | .output =>
    rw [phaseStep]
    split
    next => exact htells
    next => exact ⟨htells.carries, htells.told⟩
  | .initialization | .conversion | .canonicalization | .finalization => exact htells

/-! ### Runs -/

theorem tells_runPhase (phase : Phase) (hops : ∀ op ∈ unit.operations, op.KeepsImports)
    (h : c.Carries source) (hlog : c.log.messages = []) :
    (∀ failed log, (c.runPhase unit phase).1 = .error (.multiple failed log) →
      Told source.text log.errors) ∧
    ((c.runPhase unit phase).1 = .ok () →
      (c.runPhase unit phase).2.Carries source ∧ (c.runPhase unit phase).2.log.messages = []) := by
  have hstep : (c.phaseStep unit phase).2.Tells source := tells_phaseStep h hlog
  rw [runPhase]
  rcases heq : c.phaseStep unit phase with ⟨e | ⟨⟨⟩⟩, c₁⟩
  · obtain ⟨name, path, cause, rfl⟩ := phaseStep_error heq
    constructor
    · rintro _ _ ⟨⟩
    · rintro ⟨⟩
  · rw [heq] at hstep
    have hdone : Tells source (if c₁.log.hasErrors then c₁ else c₁.operateAll unit phase) := by
      split
      · exact hstep
      · exact hstep.operateAll hops
    dsimp only
    generalize (if c₁.log.hasErrors then c₁ else c₁.operateAll unit phase) = d at hdone ⊢
    split
    next =>
      constructor
      · rintro failed log ⟨⟩
        exact hdone.told
      · rintro ⟨⟩
    next herrors =>
      constructor
      · rintro _ _ ⟨⟩
      · exact fun _ ↦ ⟨hdone.carries, hasErrors_eq_false_iff.mp (Bool.eq_false_iff.mpr herrors)⟩

/-- However many phases pass, what the last of them reports at places is about the text. -/
theorem tells_runPhases (hops : ∀ op ∈ unit.operations, op.KeepsImports) {phases : List Phase}
    (h : c.Carries source) (hlog : c.log.messages = []) {failed : Phase} {log : MessageLog}
    (hrun : (c.runPhases unit phases).1 = .error (.multiple failed log)) :
    Told source.text log.errors := by
  induction phases generalizing c with
  | nil => cases hrun
  | cons phase phases ih =>
    obtain ⟨hfailed, hpassed⟩ := tells_runPhase phase hops h hlog
    rw [runPhases] at hrun
    rcases heq : c.runPhase unit phase with ⟨e | ⟨⟨⟩⟩, c₁⟩
    · rw [heq] at hrun hfailed
      exact hfailed failed log hrun
    · rw [heq] at hrun hpassed
      obtain ⟨hc₁, hlog₁⟩ := hpassed rfl
      exact ih hc₁ hlog₁ hrun

end Compilation

namespace CompileRequest

variable {σ α : Type} (r : CompileRequest σ α) (imports : List String) (initial : σ)

theorem registeredUnit_of_none (htransformer : r.operation.bind (·.transformer) = none) :
    r.registeredUnit imports = r.plainUnit imports := by rw [registeredUnit, htransformer]

theorem keepsImports_of_mem_operations (htransformer : r.operation.bind (·.transformer) = none)
    (text : String) : ∀ op ∈ (r.unit imports text).operations, op.KeepsImports := by
  intro op hop
  rw [operations_unit, r.registeredUnit_of_none imports htransformer, List.mem_append, List.mem_pair]
    at hop
  rcases hop with hop | rfl | rfl
  · obtain rfl := List.mem_singleton.mp hop
    exact (Operation.keepsImports_addStarImports imports).onFirst
  · exact Findings.keepsImports_detectPackage.onSecond
  · exact Findings.keepsImports_detectContent.onSecond

/-- The text of the script, as it is once the directory of the classes is prepared. -/
def preparedText (b : Build) : Except FileError (Option String) :=
  r.source.resource.text ((FileTree.recreateDirectory r.classes).run b.world.files).2

/-- A script that could not be compiled is reported with the failure of its compilation. -/
theorem compilation_of_compile_error {b : Build} {name : String} {line : Option UInt32}
    {cause : CompilationFailure} (h : ((r.compile imports initial).run b).1 =
      .error (.scriptCompilationFailed name line cause)) :
    ∃ text w failure, r.preparedText b = .ok text ∧
      (r.compilation imports initial (text.getD "") w).1 = .error failure ∧
      .scriptCompilationFailed name line cause = compilationFailed r.source failure := by
  rw [run_compile] at h
  dsimp only at h
  split at h
  next => cases h
  next =>
    rw [run_tryCatch] at h
    split at h
    next => cases h
    next e b₁ hkeep =>
      obtain ⟨log, hclean⟩ := r.run_cleanUp e b₁
      rw [hclean] at h
      cases h
      rw [run_compileAndKeep] at hkeep
      split at hkeep
      next => cases hkeep
      next text htext =>
        dsimp only at hkeep
        split at hkeep
        next failure hfailed =>
          obtain ⟨heq, -⟩ := Prod.mk.inj hkeep
          exact ⟨text, _, failure, htext, hfailed, (Except.error.inj heq).symm⟩
        next =>
          split at hkeep
          next => cases hkeep
          next =>
            rw [keepMetadata, Build.run_onFiles] at hkeep
            obtain ⟨heq, -⟩ := Prod.mk.inj hkeep
            generalize ((writeMetadata _ _ _ _).run _).1 = written at heq
            cases written <;> cases heq

/-- What a compilation without a transformer reports at places is about the text of the script. -/
theorem told_of_compilation (htransformer : r.operation.bind (·.transformer) = none)
    {text : String} {w : World} {phase : Phase} {log : MessageLog}
    (h : (r.compilation imports initial text w).1 = .error (.multiple phase log)) :
    Told text log.errors := by
  have hsources : (r.unit imports text).sources = [⟨text, r.source.className, scriptCodeBase⟩] := by
    rw [unit, r.registeredUnit_of_none imports htransformer]
    rfl
  have hstart : ((r.unit imports text).start w ({ loader := r.parent, sources := none }, initial)
      (initial, {})).Carries ⟨text, r.source.className, scriptCodeBase⟩ :=
    ⟨_, congrArg (List.map _) hsources, rfl, nofun⟩
  have hops := r.keepsImports_of_mem_operations imports htransformer text
  exact Compilation.tells_runPhases hops hstart rfl h

/-- The messages of a failed compilation call the script by its name, those at places are in source
order, and the line is that of the first of them. -/
structure Locates (source : ScriptSource) (text : String) (name : String) (line : Option UInt32)
    (log : MessageLog) : Prop where
  told : Told text log.errors
  inOrder : InOrder text.toList (log.errors.map (·.span))
  name : name = source.displayName
  places : ∀ m ∈ log.messages, ∀ place, m.place? = some place → place.1 = source.displayName
  /-- The line is the first of their lines, if 32 bits are enough for the lines of the text. -/
  minimal : 1 + text.toList.count '\n' < 2 ^ 32 → line = (log.errors.map (·.span.line)).min?
  line : line = log.errors.head?.map (·.span.line)

theorem locates_of_compile_error (htransformer : r.operation.bind (·.transformer) = none)
    {b : Build} {name : String} {line : Option UInt32} {phase : Phase} {log : MessageLog}
    (h : ((r.compile imports initial).run b).1 =
      .error (.scriptCompilationFailed name line (.multiple phase log))) :
    ∃ text, r.preparedText b = .ok text ∧ Locates r.source (text.getD "") name line log := by
  obtain ⟨text, w, failure, htext, hfailed, heq⟩ := r.compilation_of_compile_error imports initial h
  refine ⟨text, htext, ?_⟩
  cases failure with
  | output className path cause => cases heq
  | multiple phase' log' =>
    cases heq
    have htold := r.told_of_compilation imports initial htransformer hfailed
    rw [← MessageLog.errors_rename log' r.source.displayName] at htold
    refine ⟨htold, htold.inOrder, rfl, ?_, fun hlines ↦ ?_, MessageLog.firstPlace?_eq _⟩
    · rw [MessageLog.rename]
      refine List.forall_mem_map.mpr fun m _ place hplace ↦ ?_
      cases m with
      | located e name text =>
        cases hplace
        rfl
      | general message name => cases hplace
    · have hmin := htold.inOrder.min?_line hlines
      rw [List.map_map, List.head?_map, Option.map_map] at hmin
      rw [MessageLog.firstPlace?_eq]
      exact hmin.symm

end CompileRequest

/-- Reading a text takes at least one token in every round and comes to its end. If it fails, the
errors are in source order, and a compilation that fails reports them so. -/
theorem syntaxErrors_inOrder :
    (∀ (text : List Char) (tokens : List Located), tokenize text = .ok tokens →
      (∀ rounds, Grammar.Advances (Grammar.afterRounds tokens rounds)
        (Grammar.afterRounds tokens (rounds + 1))) ∧
      Grammar.AtEnd (Grammar.afterRounds tokens (tokens.length + 1)).2.2) ∧
    (∀ (text : String) (errors : List SyntaxError), parse text = .error errors →
      errors ≠ [] ∧ InOrder text.toList (errors.map (·.span)) ∧
        ∀ e ∈ errors, e.fault ≠ .nestedTooDeeply) ∧
    ∀ {σ α : Type} (r : CompileRequest σ α) (imports : List String) (initial : σ) (b : Build)
      (name : String) (line : Option UInt32) (phase : Phase) (log : MessageLog),
      r.operation.bind (·.transformer) = none →
      ((r.compile imports initial).run b).1 =
        .error (.scriptCompilationFailed name line (.multiple phase log)) →
      ∃ text, r.preparedText b = .ok text ∧
        CompileRequest.Locates r.source (text.getD "") name line log := by
  refine ⟨fun text tokens h ↦ ?_, fun text errors h ↦ ⟨ne_nil_of_parse h, inOrder_of_parse_error h⟩,
    fun r imports initial b name line phase log htransformer h ↦ ?_⟩
  · exact Grammar.afterRounds_advances (.of_tiles (tiles_of_tokenize h) rfl)
  · exact r.locates_of_compile_error imports initial htransformer h

/-- A script with a parenthesis too many in each of its two lines. -/
def unbalanced : CompileRequest Unit Unit where
  source := ⟨"script 'b'", "B", none, .memory (some "b )\n)")⟩
  parent := 0
  classes := ⟨"/classes"⟩
  metadata := ⟨"/metadata"⟩
  operation := none
  base := .native 0 scriptClassName none []

theorem syntaxErrors_inOrder_unbalanced :
    (∃ tokens, tokenize "b )\n)".toList = .ok tokens ∧ tokens.length = 5 ∧
      Grammar.Advances (Grammar.afterRounds tokens 0) (Grammar.afterRounds tokens 1) ∧
      Grammar.AtEnd (Grammar.afterRounds tokens 6).2.2) ∧
    (∃ errors, parse "b )\n)" = .error errors ∧ errors.map (·.span.start) = [2, 4] ∧
      InOrder "b )\n)".toList (errors.map (·.span))) ∧
    ∃ name phase log, ((unbalanced.compile [] ()).run { world := {} }).1 =
        .error (.scriptCompilationFailed name (some 1) (.multiple phase log)) ∧
      log.errors.map (·.span.line) = [1, 2] ∧
      ∃ text, unbalanced.preparedText { world := {} } = .ok text ∧
        CompileRequest.Locates unbalanced.source (text.getD "") name (some 1) log := by
  obtain ⟨hrounds, hparse, hcompile⟩ := syntaxErrors_inOrder
  refine ⟨?_, ?_, ?_⟩
  · have hlength : (tokenize "b )\n)".toList).toOption.map List.length = some 5 := by
      decide +kernel
    cases htokens : tokenize "b )\n)".toList with
    | error errors =>
      rw [htokens] at hlength
      cases hlength
    | ok tokens =>
      rw [htokens] at hlength
      have hfive : tokens.length = 5 := Option.some.inj hlength
      obtain ⟨hadvances, hend⟩ := hrounds _ tokens htokens
      rw [hfive] at hend
      exact ⟨tokens, rfl, hfive, hadvances 0, hend⟩
  · have herrors : ((parse "b )\n)").mapError fun errors ↦ errors.map (·.span.start)).map
        (fun _ ↦ ()) = .error [2, 4] := by decide +kernel
    cases hparsed : parse "b )\n)" with
    | ok script =>
      rw [hparsed] at herrors
      cases herrors
    | error errors =>
      rw [hparsed] at herrors
      exact ⟨errors, rfl, Except.error.inj herrors, (hparse _ _ hparsed).2.1⟩
  · have hfailed : (((unbalanced.compile [] ()).run { world := {} }).1.mapError fun e ↦
        (e.line?, e.errors.map (·.span.line))).map (fun _ ↦ ()) = .error (some 1, [1, 2]) := by
      decide +kernel
    rcases hcompiled : ((unbalanced.compile [] ()).run { world := {} }).1 with e | operation
    · rw [hcompiled] at hfailed
      obtain ⟨hline, hlines⟩ := Prod.mk.inj (Except.error.inj hfailed)
      obtain ⟨name, line, phase, log, rfl, herrors⟩ := ScriptError.eq_of_errors_ne_nil
        (fun hnil : e.errors = [] ↦ by rw [hnil] at hlines; cases hlines)
      cases hline
      rw [herrors] at hlines
      exact ⟨name, phase, log, rfl, hlines, hcompile _ _ _ _ _ _ _ _ rfl hcompiled⟩
    · rw [hcompiled] at hfailed
      cases hfailed

end BuildScript
