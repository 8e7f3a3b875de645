import BuildScript.Proofs.Compile.SingleSource

/-!
# Noted calls

Which operations a compilation calls, on which sources and in which order, cannot be seen in its
result if the operations tell nobody. `CompilationUnit.noting` is a unit whose operations write down
their calls beside what they do. `CompilationUnit.forget_noting` says that they do the same as
before: the steps of the phases know nothing of operations, so a compilation that forgets the notes
is the one without them.
-/

namespace BuildScript

/-- The number of an operation and the source that it was called on. -/
abbrev Note := Nat × CodeSource

/-- Notes each call. -/
def Operation.noting {τ : Type} (op : Operation τ) (number : Nat) : Operation (τ × List Note) where
  phase := op.phase
  call u s :=
    let (result, u', t) := op.call u s.1
    (result, u', t, s.2 ++ [(number, u.source)])

theorem Operation.RewritesScript.noting {τ : Type} {op : Operation τ} (h : op.RewritesScript)
    (number : Nat) : (op.noting number).RewritesScript where
  source u s := h.source u s.1
  classNodes u s := h.classNodes u s.1
  script u s := h.script u s.1

namespace CompilationUnit

variable {ρ σ τ : Type}

/-- The unit with other operations. -/
def withOperations (unit : CompilationUnit ρ σ) (operations : List (Operation τ)) :
    CompilationUnit ρ τ where
  configuration := unit.configuration
  loader := unit.loader
  sources := unit.sources
  operations := operations
  resolver := unit.resolver
  verifier := unit.verifier
  encode := unit.encode

/-- The operations of a phase with their numbers, in the order in which they were added. -/
def numbered (unit : CompilationUnit ρ τ) (phase : Phase) : List (Operation τ × Nat) :=
  unit.operations.zipIdx.filter (·.1.phase == phase)

/-- The unit with operations that note their calls. -/
def noting (unit : CompilationUnit ρ τ) : CompilationUnit ρ (τ × List Note) :=
  unit.withOperations (unit.operations.zipIdx.map fun x ↦ x.1.noting x.2)

/-- The calls of some phases: each operation on every source, in order. -/
def calls (unit : CompilationUnit ρ τ) (phases : List Phase) : List Note :=
  phases.flatMap fun phase ↦ (unit.numbered phase).flatMap fun x ↦
    unit.sources.map fun source ↦ (x.2, source)

theorem calls_append (unit : CompilationUnit ρ τ) (phases later : List Phase) :
    unit.calls (phases ++ later) = unit.calls phases ++ unit.calls later :=
  List.flatMap_append

theorem filter_operations (unit : CompilationUnit ρ τ) (phase : Phase) :
    unit.operations.filter (·.phase == phase) = (unit.numbered phase).map Prod.fst := by
  have hfirst : unit.operations = unit.operations.zipIdx.map Prod.fst :=
    (List.zipIdx_map_fst ..).symm
  conv_lhs => rw [hfirst, List.filter_map]
  rfl

theorem filter_operations_noting (unit : CompilationUnit ρ τ) (phase : Phase) :
    unit.noting.operations.filter (·.phase == phase) =
      (unit.numbered phase).map fun x ↦ x.1.noting x.2 := by
  change (unit.operations.zipIdx.map fun x ↦ x.1.noting x.2).filter _ = _
  rw [List.filter_map]
  rfl

theorem mem_of_mem_numbered {unit : CompilationUnit ρ τ} {phase : Phase} {x : Operation τ × Nat}
    (hx : x ∈ unit.numbered phase) : x.1 ∈ unit.operations :=
  List.fst_mem_of_mem_zipIdx (List.mem_of_mem_filter hx)

theorem rewritesScript_noting {unit : CompilationUnit ρ τ}
    (hops : ∀ op ∈ unit.operations, op.RewritesScript) :
    ∀ op ∈ unit.noting.operations, op.RewritesScript := by
  intro op hop
  obtain ⟨x, hx, rfl⟩ := List.mem_map.mp hop
  exact (hops x.1 (List.fst_mem_of_mem_zipIdx hx)).noting x.2

end CompilationUnit

namespace Compilation

variable {ρ σ τ : Type}

/-! ## Steps and the state of the operations -/

/-- The compilation with another state of the operations. -/
def withState (c : Compilation ρ σ) (operationState : τ) : Compilation ρ τ where
  world := c.world
  resolverState := c.resolverState
  operationState := operationState
  units := c.units
  log := c.log
  classes := c.classes

theorem withState_foldl {α : Type} (s : τ) {f : Compilation ρ τ → α → Compilation ρ τ}
    {g : Compilation ρ σ → α → Compilation ρ σ}
    (h : ∀ c a, f (c.withState s) a = (g c a).withState s) (l : List α) (c : Compilation ρ σ) :
    l.foldl f (c.withState s) = (l.foldl g c).withState s :=
  List.foldl_hom (withState · s) h

section Steps

variable (unit : CompilationUnit ρ σ) (operations : List (Operation τ)) (s : τ)

theorem withState_resolveSource (c : Compilation ρ σ) (u : SourceUnit) :
    resolveSource unit.resolver (c.withState s) u =
      (resolveSource unit.resolver c u).withState s := by
  rw [resolveSource, resolveSource]
  cases u.script <;> rfl

theorem withState_resolveSources (c : Compilation ρ σ) :
    (c.withState s).resolveSources (unit.withOperations operations) =
      (c.resolveSources unit).withState s := by
  rw [resolveSources, resolveSources]
  dsimp only [withState, CompilationUnit.withOperations]
  generalize c.world.load unit.loader unit.configuration.scriptBaseClass = loaded
  obtain ⟨e | base, w⟩ := loaded
  · cases e <;> rfl
  · exact withState_foldl s (withState_resolveSource unit s) c.units
      { c with world := w, units := [] }

theorem withState_selectSource (c : Compilation ρ σ) (u : SourceUnit) :
    selectSource (unit.withOperations operations) (c.withState s) u =
      (selectSource unit c u).withState s := by
  rw [selectSource, selectSource]
  cases u.script with
  | none => rfl
  | some script =>
    dsimp only [CompilationUnit.withOperations]
    split <;> rfl

theorem withState_generateClass (source : CodeSource) (c : Compilation ρ σ) (node : ClassNode) :
    generateClass (unit.withOperations operations) source (c.withState s) node =
      (generateClass unit source c node).withState s := by
  rw [generateClass, generateClass]
  dsimp only [CompilationUnit.withOperations]
  cases node.compile unit.configuration.debug <;> rfl

/-- The step of a phase uses neither the operations nor their state. -/
theorem withState_phaseStep (phase : Phase) (c : Compilation ρ σ) :
    (c.withState s).phaseStep (unit.withOperations operations) phase =
      ((c.phaseStep unit phase).1, (c.phaseStep unit phase).2.withState s) := by
  cases phase with
  | semanticAnalysis => exact congrArg (Prod.mk _) (withState_resolveSources unit operations s c)
  | instructionSelection =>
    have hselect := withState_selectSource unit operations s
    exact congrArg (Prod.mk _) (withState_foldl s hselect c.units { c with units := [] })
  | classGeneration =>
    refine congrArg (Prod.mk _) (withState_foldl s (fun d u ↦ ?_) c.units c)
    exact withState_foldl s (withState_generateClass unit operations s u.source) u.classNodes d
  | output =>
    rw [phaseStep, phaseStep]
    dsimp only [CompilationUnit.withOperations]
    cases unit.configuration.targetDirectory <;> rfl
  | initialization | parsing | conversion | canonicalization | finalization => rfl

/-- The steps of the phases leave the state of the operations alone. -/
theorem operationState_phaseStep (unit : CompilationUnit ρ σ) (phase : Phase)
    (c : Compilation ρ σ) :
    (c.phaseStep unit phase).2.operationState = c.operationState :=
  congrArg (·.2.operationState)
    (withState_phaseStep unit unit.operations c.operationState phase c)

end Steps

/-! ## Forgetting the notes -/

/-- The compilation without the notes. -/
def forget (c : Compilation ρ (τ × List Note)) : Compilation ρ τ := c.withState c.operationState.1

variable (unit : CompilationUnit ρ τ)

theorem forget_phaseStep (phase : Phase) (c : Compilation ρ (τ × List Note)) :
    c.forget.phaseStep unit phase =
      ((c.phaseStep unit.noting phase).1, (c.phaseStep unit.noting phase).2.forget) := by
  have hstate := operationState_phaseStep unit.noting phase c
  have hforget : (c.phaseStep unit.noting phase).2.forget =
      (c.phaseStep unit.noting phase).2.withState c.operationState.1 := by rw [forget, hstate]
  rw [hforget]
  exact withState_phaseStep unit.noting unit.operations c.operationState.1 phase c

theorem forget_operate (phase : Phase) (x : Operation τ × Nat) (c : Compilation ρ (τ × List Note))
    (u : SourceUnit) :
    operate phase x.1 c.forget u = (operate phase (x.1.noting x.2) c u).forget := by
  rw [operate, operate]
  dsimp only [Operation.noting, forget, withState]
  cases (x.1.call u c.operationState.1).1 <;> rfl

theorem forget_operateAll (phase : Phase) (c : Compilation ρ (τ × List Note)) :
    c.forget.operateAll unit phase = (c.operateAll unit.noting phase).forget := by
  rw [operateAll, operateAll, unit.filter_operations, unit.filter_operations_noting, List.foldl_map,
    List.foldl_map]
  refine List.foldl_hom forget fun d x ↦ ?_
  change d.units.foldl _ { d with units := [] }.forget =
    (d.units.foldl _ { d with units := [] }).forget
  exact List.foldl_hom forget (forget_operate phase x)

theorem forget_runPhase (phase : Phase) (c : Compilation ρ (τ × List Note)) :
    c.forget.runPhase unit phase =
      ((c.runPhase unit.noting phase).1, (c.runPhase unit.noting phase).2.forget) := by
  rw [runPhase, runPhase, forget_phaseStep]
  rcases c.phaseStep unit.noting phase with ⟨_ | _, d⟩
  · rfl
  · dsimp only
    rw [forget_operateAll]
    -- Whether operations run, and whether the phase fails, is decided by the log.
    have hlog (e : Compilation ρ (τ × List Note)) : e.forget.log = e.log := rfl
    rw [hlog]
    by_cases hstep : d.log.hasErrors = true
    · rw [if_pos hstep, if_pos hstep, hlog, if_pos hstep, if_pos hstep]
    · rw [if_neg hstep, if_neg hstep, hlog]
      split <;> rfl

theorem forget_runPhases (phases : List Phase) (c : Compilation ρ (τ × List Note)) :
    c.forget.runPhases unit phases =
      ((c.runPhases unit.noting phases).1, (c.runPhases unit.noting phases).2.forget) := by
  induction phases generalizing c with
  | nil => rfl
  | cons phase phases ih =>
    rw [runPhases, runPhases, forget_runPhase]
    rcases c.runPhase unit.noting phase with ⟨_ | _, d⟩
    · rfl
    · exact ih d

end Compilation

/-- A compilation that notes its calls does what the one without notes does. -/
theorem CompilationUnit.forget_noting {ρ τ : Type} (unit : CompilationUnit ρ τ) (w : World)
    (resolverState : ρ) (operationState : τ) (notes : List Note) :
    unit.compile w resolverState operationState =
      ((unit.noting.compile w resolverState (operationState, notes)).1,
        (unit.noting.compile w resolverState (operationState, notes)).2.forget) :=
  Compilation.forget_runPhases unit Phase.all
    (unit.noting.start w resolverState (operationState, notes))

/-! ## What is noted -/

namespace Compilation

variable {ρ τ β : Type} (phase : Phase) {op : Operation τ} {key : SourceUnit → β}

theorem units_operate (op : Operation τ) (c : Compilation ρ τ) (u : SourceUnit) :
    (operate phase op c u).units = c.units ++ [(op.call u c.operationState).2.1] := by
  rw [operate]
  dsimp only
  split <;> rfl

theorem operationState_operate (op : Operation τ) (c : Compilation ρ τ) (u : SourceUnit) :
    (operate phase op c u).operationState = (op.call u c.operationState).2.2 := by
  rw [operate]
  dsimp only
  split <;> rfl

theorem map_units_foldl_operate (hop : ∀ u s, key (op.call u s).2.1 = key u) (us : List SourceUnit)
    (c : Compilation ρ τ) :
    (us.foldl (operate phase op) c).units.map key = c.units.map key ++ us.map key := by
  induction us generalizing c with
  | nil => exact (List.append_nil _).symm
  | cons u us ih =>
    rw [List.foldl_cons, ih, units_operate, List.map_append, List.map_singleton, hop, List.map_cons,
      List.append_assoc]
    rfl

/-- What each operation keeps of a source is kept of all. -/
theorem map_units_operateEach {ops : List (Operation τ)}
    (hops : ∀ op ∈ ops, ∀ u s, key (op.call u s).2.1 = key u) (c : Compilation ρ τ) :
    (c.operateEach phase ops).units.map key = c.units.map key := by
  refine List.foldlRecOn (motive := fun d : Compilation ρ τ ↦ d.units.map key = c.units.map key)
    ops _ rfl fun d hd op hop ↦ ?_
  rw [map_units_foldl_operate phase (hops op hop)]
  exact hd

theorem notes_foldl_operate (op : Operation τ) (number : Nat) (us : List SourceUnit)
    (c : Compilation ρ (τ × List Note)) :
    (us.foldl (operate phase (op.noting number)) c).operationState.2 =
      c.operationState.2 ++ us.map fun u ↦ (number, u.source) := by
  induction us generalizing c with
  | nil => exact (List.append_nil _).symm
  | cons u us ih =>
    rw [List.foldl_cons, ih, operationState_operate, List.map_cons, ← List.singleton_append,
      ← List.append_assoc]
    rfl

theorem operateEach_cons (op : Operation τ) (ops : List (Operation τ)) (c : Compilation ρ τ) :
    c.operateEach phase (op :: ops) =
      (c.units.foldl (operate phase op) { c with units := [] }).operateEach phase ops := rfl

/-- Each operation notes every source once. -/
theorem notes_operateEach {xs : List (Operation τ × Nat)}
    (hops : ∀ x ∈ xs, ∀ u s, (x.1.call u s).2.1.source = u.source)
    (c : Compilation ρ (τ × List Note)) :
    (c.operateEach phase (xs.map fun x ↦ x.1.noting x.2)).operationState.2 =
      c.operationState.2 ++ xs.flatMap fun x ↦ (c.units.map (·.source)).map fun s ↦ (x.2, s) := by
  induction xs generalizing c with
  | nil => exact (List.append_nil _).symm
  | cons x xs ih =>
    have hop : ∀ u s, ((x.1.noting x.2).call u s).2.1.source = u.source := fun u s ↦
      hops x List.mem_cons_self u s.1
    have hsources := map_units_foldl_operate phase hop c.units { c with units := [] }
    have hnotes := notes_foldl_operate phase x.1 x.2 c.units { c with units := [] }
    rw [List.map_nil, List.nil_append] at hsources
    rw [List.map_cons, operateEach_cons, ih fun y hy ↦ hops y (List.mem_cons_of_mem x hy), hsources,
      hnotes, List.flatMap_cons, List.append_assoc, List.map_map]
    rfl

end Compilation

end BuildScript
