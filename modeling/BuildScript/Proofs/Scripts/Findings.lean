import BuildScript.Proofs.Compile.NotedCalls
import BuildScript.Scripts.Build

/-!
# What is found out about a script

A compilation carries the state of the transformer and what was found out about the script, side by
side. The transformer's operations do not touch the second part, and the two that look at the script
run behind all others of their phase. So when the analysis is over, the findings are about the script
as it is then; and no later phase changes them.

That phases keep what their operations keep of the state is used twice: before the findings are made
they are still empty, and afterwards they stay what they are.
-/

namespace BuildScript

/-- What is to be found out about a script. -/
def Findings.ofScript (script : Script) : Findings where
  hasPackage := script.package.isSome
  isEmpty := !script.statements.any (·.mayHaveEffect)
  hasMethods := !script.methods.isEmpty

/-! ## Operations that rewrite scripts -/

section

variable {σ τ : Type}

theorem Operation.rewritesScript_addStarImports (packages : List String) :
    (addStarImports packages : Operation τ).RewritesScript where
  source _ _ := rfl
  classNodes _ _ := rfl
  script _ _ := Option.isSome_map

theorem Operation.RewritesScript.onFirst {op : Operation σ} (h : op.RewritesScript) :
    (op.onFirst : Operation (σ × τ)).RewritesScript where
  source u s := h.source u s.1
  classNodes u s := h.classNodes u s.1
  script u s := h.script u s.1

theorem Operation.RewritesScript.onSecond {op : Operation τ} (h : op.RewritesScript) :
    (op.onSecond : Operation (σ × τ)).RewritesScript where
  source u s := h.source u s.2
  classNodes u s := h.classNodes u s.2
  script u s := h.script u s.2

theorem Findings.rewritesScript_detectPackage : detectPackage.RewritesScript where
  source _ _ := rfl
  classNodes _ _ := rfl
  script _ _ := rfl

theorem Findings.call_detectContent (u : SourceUnit) (f : Findings) :
    (detectContent.call u f).2.1 = u := by
  rw [detectContent]
  dsimp only
  split <;> rfl

theorem Findings.rewritesScript_detectContent : detectContent.RewritesScript where
  source u f := by rw [call_detectContent]
  classNodes u f := by rw [call_detectContent]
  script u f := by rw [call_detectContent]

end

/-! ## The state of the operations -/

namespace Compilation

variable {ρ τ : Type} {unit : CompilationUnit ρ τ} {phase : Phase} {P : τ → Prop}

theorem keepsState_operateEach {ops : List (Operation τ)}
    (hops : ∀ op ∈ ops, ∀ u s, P s → P (op.call u s).2.2) {c : Compilation ρ τ}
    (hc : P c.operationState) : P (c.operateEach phase ops).operationState := by
  refine List.foldlRecOn (motive := fun d : Compilation ρ τ ↦ P d.operationState) ops _ hc
    fun d hd op hop ↦ ?_
  refine List.foldlRecOn (motive := fun e : Compilation ρ τ ↦ P e.operationState) d.units _ hd
    fun e he u _ ↦ ?_
  have hcall := hops op hop u e.operationState he
  rw [operate]
  dsimp only
  split
  · exact hcall
  · exact hcall

/-- What the operations of some phases keep of their state is kept by these phases. -/
theorem keepsState_runPhases {phases : List Phase} (hops : ∀ op ∈ unit.operations,
    op.phase ∈ phases → ∀ u s, P s → P (op.call u s).2.2) {c c' : Compilation ρ τ}
    (hrun : c.runPhases unit phases = (.ok (), c')) (hc : P c.operationState) :
    P c'.operationState := by
  suffices hruns : P (c.runPhases unit phases).2.operationState by rwa [hrun] at hruns
  refine keeps_of_phases (Q := fun d ↦ P d.operationState) (fun phase hmem ↦ ?_) c hc
  refine keeps_of_step (Q := fun d ↦ P d.operationState) (fun d hd ↦ ?_) fun d hd ↦ ?_
  · rwa [operationState_phaseStep]
  · rw [operateAll_eq]
    refine keepsState_operateEach (fun op hop ↦ ?_) hd
    obtain ⟨hop, hphase⟩ := List.mem_filter.mp hop
    exact hops op hop (eq_of_beq hphase ▸ hmem)

end Compilation

/-! ## The findings of a compilation -/

namespace CompileRequest

open Compilation

variable {σ α : Type} (r : CompileRequest σ α) (imports : List String) (text : String)

theorem operations_unit : (r.unit imports text).operations =
    (r.registeredUnit imports).operations.map .onFirst ++
      [.onSecond Findings.detectPackage, .onSecond Findings.detectContent] := rfl

/-- If the transformer only rewrites scripts, all operations do. -/
theorem rewritesScript_of_mem_operations
    (hops : ∀ op ∈ (r.registeredUnit imports).operations, op.RewritesScript) :
    ∀ op ∈ (r.unit imports text).operations, op.RewritesScript := by
  intro op hop
  rw [operations_unit, List.mem_append, List.mem_map, List.mem_pair] at hop
  rcases hop with ⟨op, hop, rfl⟩ | rfl | rfl
  · exact (hops op hop).onFirst
  · exact Findings.rewritesScript_detectPackage.onSecond
  · exact Findings.rewritesScript_detectContent.onSecond

/-- Only in one phase something is found out. -/
theorem keeps_findings {f : Findings} {op : Operation (σ × Findings)}
    (hop : op ∈ (r.unit imports text).operations) (hphase : op.phase ≠ .canonicalization)
    (u : SourceUnit) (s : σ × Findings) (hs : s.2 = f) : (op.call u s).2.2.2 = f := by
  rw [operations_unit, List.mem_append, List.mem_map, List.mem_pair] at hop
  rcases hop with ⟨op, -, rfl⟩ | rfl | rfl
  · exact hs
  · exact absurd rfl hphase
  · exact absurd rfl hphase

/-- The operations that look at the script run behind all others of their phase. -/
theorem filter_operations_canonicalization :
    (r.unit imports text).operations.filter (·.phase == .canonicalization) =
      ((r.registeredUnit imports).operations.filter (·.phase == .canonicalization)).map .onFirst ++
        [.onSecond Findings.detectPackage, .onSecond Findings.detectContent] := by
  rw [operations_unit, List.filter_append, List.filter_map]
  rfl

/-- What the two find out about one source. -/
theorem operationState_of_detectors {ρ : Type} {c : Compilation ρ (σ × Findings)} {u : SourceUnit}
    {script : Script} (hunits : c.units = [u]) (hscript : u.script = some script) :
    let c' := c.operateEach .canonicalization
      [.onSecond Findings.detectPackage, .onSecond Findings.detectContent]
    c'.units = [u] ∧ c'.operationState.2 =
      { Findings.ofScript script with
        hasMethods := c.operationState.2.hasMethods || !script.methods.isEmpty } := by
  intro c'
  obtain ⟨source, _, nodes⟩ := u
  obtain rfl : _ = some script := hscript
  have hc' : c' = (c.operateEach .canonicalization [.onSecond Findings.detectPackage]).operateEach
      .canonicalization [.onSecond Findings.detectContent] := operateEach_append (c := c) [_] [_]
  rw [operateEach_singleton _ hunits, operateEach_singleton (u := ⟨source, some script, nodes⟩) _ rfl]
    at hc'
  rw [hc']
  exact ⟨rfl, rfl⟩

/-- After the analysis the findings are about the script as it is then. -/
theorem findings_of_analysis
    (hops : ∀ op ∈ (r.registeredUnit imports).operations, op.RewritesScript)
    {c c' : Compilation (ClassLookup × σ) (σ × Findings)} {source : CodeSource} {script : Script}
    (hc : c.OnlyOf { source } []) (hstate : c.operationState.2 = {})
    (hrun : c.runPhases (r.unit imports text) Phase.analysis = (.ok (), c'))
    (hc' : c'.OnlyOf { source, script := some script } []) :
    c'.operationState.2 = Findings.ofScript script := by
  obtain ⟨c₁, hresolution, hrun⟩ := runPhases_append_eq_ok.mp hrun
  obtain ⟨c₂, hcanonicalization, hrun⟩ := runPhases_cons_eq_ok.mp hrun
  cases hrun
  obtain ⟨script₁, hc₁⟩ := exists_script_of_resolution
    (r.rewritesScript_of_mem_operations imports text hops) hc hresolution
  have hstate₁ : c₁.operationState.2 = {} := by
    refine keepsState_runPhases (P := fun s ↦ s.2 = {}) (fun op hop hphase ↦ ?_) hresolution hstate
    refine r.keeps_findings imports text hop fun heq ↦ ?_
    rw [heq] at hphase
    exact absurd hphase (by decide)
  obtain ⟨d, hstep, -, rfl, -⟩ := runPhase_eq_ok hcanonicalization
  cases hstep
  rw [operateAll_eq, filter_operations_canonicalization, operateEach_append] at hc' ⊢
  obtain ⟨early, hearly⟩ : ∃ early : List (Operation (σ × Findings)),
      early = ((r.registeredUnit imports).operations.filter (·.phase == .canonicalization)).map
        .onFirst := ⟨_, rfl⟩
  rw [← hearly] at hc' ⊢
  have hops₁ : ∀ op ∈ early, op.RewritesScript := by
    rw [hearly, List.forall_mem_map]
    exact fun op hop ↦ (hops op (List.mem_of_mem_filter hop)).onFirst
  have hkeeps : ∀ op ∈ early, ∀ u s, s.2 = {} → (op.call u s).2.2.2 = {} := by
    rw [hearly, List.forall_mem_map]
    exact fun op _ u s hs ↦ hs
  obtain ⟨script₂, hunits, hsome, -⟩ := exists_script_of_operateEach hops₁ hc₁.units
  obtain ⟨script₂, rfl⟩ := Option.isSome_iff_exists.mp hsome
  obtain ⟨hunits', hfound⟩ := operationState_of_detectors hunits rfl
  rw [hc'.units] at hunits'
  cases hunits'
  have hstate₂ : (c₁.operateEach .canonicalization early).operationState.2 = {} :=
    keepsState_operateEach (P := fun s : σ × Findings ↦ s.2 = {}) hkeeps hstate₁
  rw [hfound, hstate₂]
  rfl

/-- No later phase finds out anything. -/
theorem findings_of_generation {c c' : Compilation (ClassLookup × σ) (σ × Findings)}
    (hrun : c.runPhases (r.unit imports text) Phase.generation = (.ok (), c')) :
    c'.operationState.2 = c.operationState.2 := by
  refine keepsState_runPhases (P := fun s ↦ s.2 = c.operationState.2) (fun op hop hphase ↦ ?_) hrun
    rfl
  refine r.keeps_findings imports text hop fun heq ↦ ?_
  rw [heq] at hphase
  exact absurd hphase (by decide)

end CompileRequest

end BuildScript
