import BuildScript.Compile.Unit
import BuildScript.Proofs.Compile.Resolving
import BuildScript.Proofs.Files.Writing

/-!
# Phases and the world

Only two things that a compilation does reach the world: it loads classes, to find the base class and
to resolve names, and its output writes files. So whatever loading and the resolver keep is kept by
every phase but the output, and by the whole compilation if changes of the files keep it too.

Such things are shown of one step at a time. `keeps_of_step` and `keeps_of_phases` take them from
there to phases and compilations, which also stop early if a step fails or errors were collected.
-/

namespace BuildScript

open Relation

theorem World.onFiles_eq {ε α : Type} (w : World) (op : ExceptT ε (StateM FileTree) α) :
    w.onFiles op = ((op.run w.files).1, { w with files := (op.run w.files).2 }) := rfl

namespace Compilation

variable {ρ τ : Type} (unit : CompilationUnit ρ τ)

/-! ## Runs -/

section Runs

variable {unit} {Q : Compilation ρ τ → Prop}

/-- What the step of a phase and its operations keep is kept by the phase. -/
theorem keeps_of_step {phase : Phase} (hstep : ∀ c, Q c → Q (c.phaseStep unit phase).2)
    (hoperate : ∀ c, Q c → Q (c.operateAll unit phase)) (c : Compilation ρ τ) (hc : Q c) :
    Q (c.runPhase unit phase).2 := by
  have hc₁ := hstep c hc
  rw [runPhase]
  split
  next heq =>
    rw [heq] at hc₁
    exact hc₁
  next c₁ heq =>
    rw [heq] at hc₁
    dsimp only
    by_cases herrors : c₁.log.hasErrors = true
    · rw [if_pos herrors, if_pos herrors]
      exact hc₁
    · rw [if_neg herrors]
      split
      · exact hoperate c₁ hc₁
      · exact hoperate c₁ hc₁

/-- What each phase keeps is kept by all of them, however far they come. -/
theorem keeps_of_phases {phases : List Phase}
    (h : ∀ phase ∈ phases, ∀ c, Q c → Q (c.runPhase unit phase).2) (c : Compilation ρ τ) (hc : Q c) :
    Q (c.runPhases unit phases).2 := by
  induction phases generalizing c with
  | nil => exact hc
  | cons phase phases ih =>
    have hphase := h phase List.mem_cons_self c hc
    rw [runPhases]
    split
    next heq =>
      rw [heq] at hphase
      exact ih (fun later hmem ↦ h later (List.mem_cons_of_mem phase hmem)) _ hphase
    next heq =>
      rw [heq] at hphase
      exact hphase

end Runs

/-! ## Phases that write nothing -/

theorem world_operateAll (phase : Phase) (c : Compilation ρ τ) :
    (c.operateAll unit phase).world = c.world := by
  rw [operateAll]
  refine List.foldlRecOn (motive := fun d : Compilation ρ τ ↦ d.world = c.world) _ _ rfl
    fun d hd op _ ↦ ?_
  refine List.foldlRecOn (motive := fun e : Compilation ρ τ ↦ e.world = c.world) d.units _ hd
    fun e he u _ ↦ ?_
  rw [operate]
  dsimp only
  split
  · exact he
  · exact he

theorem world_selectSource (c : Compilation ρ τ) (u : SourceUnit) :
    (selectSource unit c u).world = c.world := by
  rw [selectSource]
  split
  · rfl
  · dsimp only
    split <;> rfl

theorem world_generateClass (source : CodeSource) (c : Compilation ρ τ) (node : ClassNode) :
    (generateClass unit source c node).world = c.world := by
  rw [generateClass]
  split <;> rfl

variable {unit} {P : World → Prop}

theorem keeps_resolveSource (hresolver : unit.resolver.Keeps fun s ↦ P s.2) (c : Compilation ρ τ)
    (u : SourceUnit) (hc : P c.world) : P (resolveSource unit.resolver c u).world := by
  rw [resolveSource]
  split
  · exact hc
  · next script _ => exact hresolver.script_resolve script (s := (c.resolverState, c.world)) hc

theorem keeps_resolveSources (hload : World.KeptByLoading P)
    (hresolver : unit.resolver.Keeps fun s ↦ P s.2) (c : Compilation ρ τ) (hc : P c.world) :
    P (c.resolveSources unit).world := by
  have hloaded := hload unit.loader unit.configuration.scriptBaseClass c.world hc
  rw [resolveSources]
  dsimp only
  split
  · exact List.foldlRecOn (motive := fun d : Compilation ρ τ ↦ P d.world) c.units _ hloaded
      fun d hd u _ ↦ keeps_resolveSource hresolver d u hd
  · exact hloaded
  · exact hloaded

/-- The step of every phase but the output keeps what loading keeps. -/
theorem keeps_phaseStep (hload : World.KeptByLoading P)
    (hresolver : unit.resolver.Keeps fun s ↦ P s.2) {phase : Phase} (hphase : phase ≠ .output)
    (c : Compilation ρ τ) (hc : P c.world) : P (c.phaseStep unit phase).2.world := by
  cases phase with
  | output => exact absurd rfl hphase
  | semanticAnalysis => exact keeps_resolveSources hload hresolver c hc
  | instructionSelection =>
    refine List.foldlRecOn (motive := fun d : Compilation ρ τ ↦ P d.world) _ _ hc fun d hd u _ ↦ ?_
    rwa [world_selectSource]
  | classGeneration =>
    refine List.foldlRecOn (motive := fun d : Compilation ρ τ ↦ P d.world) _ _ hc fun d hd u _ ↦ ?_
    refine List.foldlRecOn (motive := fun e : Compilation ρ τ ↦ P e.world) _ _ hd fun e he node _ ↦ ?_
    rwa [world_generateClass]
  | initialization | parsing | conversion | canonicalization | finalization => exact hc

/-- Phases before the output keep what loading keeps. -/
theorem keeps_runPhase (hload : World.KeptByLoading P) (hresolver : unit.resolver.Keeps fun s ↦ P s.2)
    {phase : Phase} (hphase : phase ≠ .output) (c : Compilation ρ τ) (hc : P c.world) :
    P (c.runPhase unit phase).2.world := by
  refine keeps_of_step (Q := fun d ↦ P d.world) (keeps_phaseStep hload hresolver hphase) ?_ c hc
  intro d hd
  rwa [world_operateAll]

theorem keeps_earlyPhases (hload : World.KeptByLoading P)
    (hresolver : unit.resolver.Keeps fun s ↦ P s.2) {phases : List Phase} (houtput : .output ∉ phases)
    (c : Compilation ρ τ) (hc : P c.world) : P (c.runPhases unit phases).2.world := by
  refine keeps_of_phases (Q := fun d ↦ P d.world) (fun phase hmem ↦ ?_) c hc
  exact keeps_runPhase hload hresolver fun heq ↦ houtput (heq ▸ hmem)

/-! ## The output -/

-- Comparing the two sides would otherwise execute the operation step by step.
attribute [local irreducible] FileTree.writeBelow in
theorem writeClasses_cons (target : Path) (k : CompiledClass) (ks : List CompiledClass) (w : World) :
    writeClasses target (k :: ks) w =
      let outcome := w.onFiles (FileTree.writeBelow (target.classFile k.name) k.bytes)
      match outcome.1 with
      | .ok _ => writeClasses target ks outcome.2
      | .error cause =>
        (.error (.output k.name (target.classFile k.name) cause), outcome.2) := rfl

theorem keeps_writeClasses
    (hchange : ∀ w files, ReflTransGen FileTree.Change w.files files → P w → P { w with files })
    (target : Path) (classes : List CompiledClass) {w : World} (hw : P w) :
    P (writeClasses target classes w).2 := by
  induction classes generalizing w with
  | nil => exact hw
  | cons k classes ih =>
    have hwrite := FileTree.moves_writeBelow (target.classFile k.name) k.bytes w.files
    have hwritten := hchange w _ hwrite hw
    rw [writeClasses_cons, World.onFiles_eq]
    dsimp only
    split
    · exact ih hwritten
    · exact hwritten

/-- What loading, the resolver and changes of the files keep is kept by every phase. -/
theorem keeps_runPhases (hload : World.KeptByLoading P)
    (hchange : ∀ w files, ReflTransGen FileTree.Change w.files files → P w → P { w with files })
    (hresolver : unit.resolver.Keeps fun s ↦ P s.2) (phases : List Phase) (c : Compilation ρ τ)
    (hc : P c.world) : P (c.runPhases unit phases).2.world := by
  refine keeps_of_phases (Q := fun d ↦ P d.world) (fun phase _ ↦ ?_) c hc
  refine keeps_of_step (Q := fun d ↦ P d.world) (fun d hd ↦ ?_) fun d hd ↦ ?_
  · by_cases hphase : phase = .output
    · rw [hphase, phaseStep]
      split
      · exact hd
      · exact keeps_writeClasses hchange _ _ hd
    · exact keeps_phaseStep hload hresolver hphase d hd
  · rwa [world_operateAll]

end Compilation

namespace CompilationUnit

variable {ρ τ : Type} (unit : CompilationUnit ρ τ) (w : World) (resolverState : ρ)
  (operationState : τ)

/-- The compilation before its first phase. -/
def start : Compilation ρ τ where
  world := w
  resolverState := resolverState
  operationState := operationState
  units := unit.sources.map fun source ↦ { source }
  log := { tolerance := unit.configuration.tolerance }

theorem compile_eq : unit.compile w resolverState operationState =
    (unit.start w resolverState operationState).runPhases unit Phase.all := rfl

end CompilationUnit

end BuildScript
