import BuildScript.Proofs.Compile.Emission
import BuildScript.Proofs.Compile.NotedCalls

/-!
# Stages of a compilation

How far the sources of a compilation are is told by the number of the phases behind it, as long as
none of them has reported anything: every source has a script once parsing is behind it, and a class
node named after it once instructions are selected; with the generation of classes there is a class
of every source. `Stage` says this of a compilation, and `Stage.phaseStep` that a step without
reports takes it one stage further.

A step that has reported something may have stopped half way, so nothing is said about it.
-/

namespace BuildScript

namespace Phase

variable {phase : Phase}

/-- The phases in their order are numbered by it. -/
theorem index_of_drop {n : Nat} {phases : List Phase} (h : Phase.all.drop n = phase :: phases) :
    phase.index = n ∧ Phase.all.drop (n + 1) = phases := by
  have hn : n < Phase.all.length := by
    refine Nat.lt_of_not_le fun hle ↦ ?_
    rw [List.drop_eq_nil_of_le hle] at h
    cases h
  rw [List.drop_eq_getElem_cons hn] at h
  injection h with hphase hphases
  refine ⟨?_, hphases⟩
  rw [Phase.index, ← hphase]
  exact List.Nodup.idxOf_getElem (by decide) n hn

theorem index_of_all {before later : List Phase} (h : Phase.all = before ++ phase :: later) :
    phase.index = before.length := by
  have hdrop : Phase.all.drop before.length = phase :: later := by rw [h, List.drop_left]
  exact (index_of_drop hdrop).1

/-- The output comes once. -/
theorem not_output_of_all {before later : List Phase} (hall : all = before ++ phase :: later)
    (houtput : .output ∈ later) :
    .output ∉ before ∧ phase ≠ .output := by
  have hnodup : (before ++ phase :: later).Nodup := hall ▸ (by decide : Phase.all.Nodup)
  obtain ⟨-, htail, hdisjoint⟩ := List.nodup_append.mp hnodup
  refine ⟨fun hbefore ↦ hdisjoint _ hbefore _ (List.mem_cons_of_mem phase houtput) rfl, ?_⟩
  rintro rfl
  exact (List.nodup_cons.mp htail).1 houtput

end Phase

/-- The source itself, the names of its class nodes, and whether it has a script. -/
def SourceUnit.shape (u : SourceUnit) : CodeSource × List String × Bool :=
  (u.source, u.classNodes.map (·.name), u.script.isSome)

theorem Operation.RewritesScript.shape_eq {τ : Type} {op : Operation τ} (h : op.RewritesScript)
    (u : SourceUnit) (s : τ) : (op.call u s).2.1.shape = u.shape := by
  rw [SourceUnit.shape, h.source, h.classNodes, h.script]
  rfl

namespace Compilation

variable {ρ τ : Type} {unit : CompilationUnit ρ τ} {phase : Phase} {c : Compilation ρ τ}

/-- The sources and the classes behind the first phases, as many as were passed in silence. -/
structure Stage (unit : CompilationUnit ρ τ) (passed : Nat) (c : Compilation ρ τ) : Prop where
  units : c.units.map (·.shape) = unit.sources.map fun source ↦
    (source, if Phase.instructionSelection.index < passed then [source.name] else [],
      decide (Phase.parsing.index < passed))
  classes : c.classes.map (·.name) =
    if Phase.classGeneration.index < passed then unit.sources.map (·.name) else []

theorem classes_operateEach (phase : Phase) (ops : List (Operation τ)) (c : Compilation ρ τ) :
    (c.operateEach phase ops).classes = c.classes := by
  refine List.foldlRecOn (motive := fun d : Compilation ρ τ ↦ d.classes = c.classes) ops _ rfl
    fun d hd op _ ↦ ?_
  refine List.foldlRecOn (motive := fun e : Compilation ρ τ ↦ e.classes = c.classes) d.units _ hd
    fun e he u _ ↦ ?_
  rw [operate]
  dsimp only
  split <;> exact he

theorem Stage.operateAll (hops : ∀ op ∈ unit.operations, op.RewritesScript) {passed : Nat}
    (h : c.Stage unit passed) (phase : Phase) : (c.operateAll unit phase).Stage unit passed := by
  rw [operateAll_eq]
  refine ⟨?_, ?_⟩
  · rw [map_units_operateEach phase fun op hop ↦ (hops op (List.mem_of_mem_filter hop)).shape_eq]
    exact h.units
  · rw [classes_operateEach]
    exact h.classes

/-- A loop that adds an element in every round, as long as nothing is reported. -/
theorem foldl_appends {α β : Type} (field : Compilation ρ τ → List β) (g : α → β)
    {f : Compilation ρ τ → α → Compilation ρ τ} {l : List α}
    (h : ∀ a ∈ l, ∀ c, (f c a).log.messages = [] →
      c.log.messages = [] ∧ field (f c a) = field c ++ [g a])
    (c : Compilation ρ τ) (hlog : (l.foldl f c).log.messages = []) :
    c.log.messages = [] ∧ field (l.foldl f c) = field c ++ l.map g := by
  induction l generalizing c with
  | nil => exact ⟨hlog, (List.append_nil _).symm⟩
  | cons a l ih =>
    rw [List.foldl_cons] at hlog ⊢
    obtain ⟨hround, hrest⟩ := ih (fun b hb ↦ h b (List.mem_cons_of_mem a hb)) (f c a) hlog
    obtain ⟨hc, hfield⟩ := h a List.mem_cons_self c hround
    refine ⟨hc, ?_⟩
    rw [hrest, hfield, List.map_cons, List.append_assoc]
    rfl

/-- Sources that are parsed without reports have scripts. -/
theorem shapes_of_parseSources {done us : List SourceUnit} {log : MessageLog}
    (h : (parseSources done log us).2.messages = []) :
    log.messages = [] ∧ (parseSources done log us).1.map (·.shape) =
      done.reverse.map (·.shape) ++ us.map fun u ↦ (u.source, u.classNodes.map (·.name), true) := by
  induction us generalizing done log with
  | nil => exact ⟨h, (List.append_nil _).symm⟩
  | cons u us ih =>
    rw [parseSources] at h ⊢
    cases hparse : parse u.source.text with
    | ok script =>
      rw [hparse] at h
      dsimp only at h ⊢
      cases hover : log.overTolerance with
      | true =>
        -- Without messages no number of them is too many.
        rw [hover, if_pos rfl] at h
        obtain ⟨tolerance, rfl⟩ : ∃ tolerance, log = ⟨[], tolerance⟩ := ⟨log.tolerance, by rw [← h]⟩
        simp [MessageLog.overTolerance] at hover
      | false =>
        rw [hover, if_neg Bool.false_ne_true] at h
        rw [if_neg Bool.false_ne_true]
        obtain ⟨hlog, hshapes⟩ := ih h
        refine ⟨hlog, ?_⟩
        rw [hshapes, List.reverse_cons, List.map_append, List.append_assoc]
        rfl
    | error errors =>
      rw [hparse] at h
      dsimp only at h
      have hadded : (log.add (errors.map fun (e : SyntaxError) ↦
          Message.located ⟨e.message, e.span⟩ u.source.name u.source.text)).messages = [] := by
        split at h
        · exact h
        · exact (ih h).1
      have hnil := (List.append_eq_nil_iff.mp hadded).2
      exact absurd (List.map_eq_nil_iff.mp hnil) (ne_nil_of_parse hparse)

theorem shape_of_resolveSource (u : SourceUnit)
    (h : (resolveSource unit.resolver c u).log.messages = []) :
    c.log.messages = [] ∧ (resolveSource unit.resolver c u).units.map (·.shape) =
      c.units.map (·.shape) ++ [u.shape] := by
  rw [resolveSource] at h ⊢
  cases hscript : u.script with
  | none =>
    rw [hscript] at h
    exact ⟨h, List.map_append⟩
  | some script =>
    rw [hscript] at h
    dsimp only at h ⊢
    refine ⟨(messages_of_report h).1, ?_⟩
    change (c.units ++ [_]).map _ = _
    rw [List.map_append, List.map_singleton, SourceUnit.shape, SourceUnit.shape, hscript]
    rfl

/-- Resolving keeps the shapes. -/
theorem shapes_of_resolveSources (h : (c.resolveSources unit).log.messages = []) :
    (c.resolveSources unit).units.map (·.shape) = c.units.map (·.shape) := by
  rw [resolveSources] at h ⊢
  dsimp only at h ⊢
  generalize c.world.load unit.loader unit.configuration.scriptBaseClass = loaded at h ⊢
  obtain ⟨e | base, w⟩ := loaded
  · cases e <;> exact absurd (messages_of_report h).2 (List.cons_ne_nil _ _)
  · exact (foldl_appends (fun d ↦ d.units.map (·.shape)) (·.shape)
      (fun u _ d ↦ shape_of_resolveSource u) { c with world := w, units := [] } h).2

/-- A class node is named after its source. -/
theorem shape_of_selectSource {u : SourceUnit} (hscript : u.script.isSome = true)
    (h : (selectSource unit c u).log.messages = []) :
    c.log.messages = [] ∧ (selectSource unit c u).units.map (·.shape) =
      c.units.map (·.shape) ++ [(u.source, [u.source.name], true)] := by
  obtain ⟨script, hscript⟩ := Option.isSome_iff_exists.mp hscript
  rw [selectSource, hscript] at h ⊢
  dsimp only at h ⊢
  split at h
  next =>
    refine ⟨h, ?_⟩
    change (c.units ++ [_]).map _ = _
    rw [List.map_append, List.map_singleton, SourceUnit.shape]
    rfl
  all_goals exact absurd (messages_of_report h).2 (List.cons_ne_nil _ _)

/-- A class file is named after its class node. -/
theorem name_of_generateClass {source : CodeSource} {node : ClassNode}
    (h : (generateClass unit source c node).log.messages = []) :
    c.log.messages = [] ∧ (generateClass unit source c node).classes.map (·.name) =
      c.classes.map (·.name) ++ [node.name] := by
  rw [generateClass] at h ⊢
  dsimp only at h ⊢
  split at h
  next => exact absurd (messages_of_report h).2 (List.cons_ne_nil _ _)
  next file hfile =>
    refine ⟨h, ?_⟩
    rw [List.map_append, List.map_singleton, (ClassNode.emits_of_compile hfile).name_eq]

theorem units_generateClass (source : CodeSource) (node : ClassNode) :
    (generateClass unit source c node).units = c.units := by
  rw [generateClass]
  split <;> rfl

theorem classes_resolveSources (unit : CompilationUnit ρ τ) (c : Compilation ρ τ) :
    (c.resolveSources unit).classes = c.classes := by
  rw [resolveSources]
  dsimp only
  split
  · refine List.foldlRecOn (motive := fun d : Compilation ρ τ ↦ d.classes = c.classes) c.units _ rfl
      fun d hd u _ ↦ ?_
    rw [resolveSource]
    split <;> exact hd
  · rfl
  · rfl

theorem classes_selectSource (unit : CompilationUnit ρ τ) (c : Compilation ρ τ) (u : SourceUnit) :
    (selectSource unit c u).classes = c.classes := by
  rw [selectSource]
  split
  · rfl
  · dsimp only
    split <;> rfl

section Steps

variable {sources : List CodeSource} {names : CodeSource → List String}

/-- What is made of the shapes of the sources is made of the sources. -/
theorem map_units_of_shapes {β : Type} {parsed : Bool} {key : SourceUnit → β}
    (g : CodeSource × List String × Bool → β) (hkey : ∀ u, key u = g u.shape)
    (hunits : c.units.map (·.shape) = sources.map fun source ↦ (source, names source, parsed)) :
    c.units.map key = sources.map fun source ↦ g (source, names source, parsed) := by
  have hmap : c.units.map key = (c.units.map (·.shape)).map g := by
    rw [List.map_map]
    exact List.map_congr_left fun u _ ↦ hkey u
  rw [hmap, hunits, List.map_map]
  rfl

theorem exists_shape_of_mem {parsed : Bool}
    (hunits : c.units.map (·.shape) = sources.map fun source ↦ (source, names source, parsed))
    {u : SourceUnit} (hu : u ∈ c.units) : u.shape = (u.source, names u.source, parsed) := by
  have hmem : u.shape ∈ c.units.map (·.shape) := List.mem_map_of_mem hu
  rw [hunits] at hmem
  obtain ⟨source, -, hshape⟩ := List.mem_map.mp hmem
  obtain rfl : source = u.source := congrArg Prod.fst hshape
  exact hshape.symm

/-- Every source gets a class node. -/
theorem shapes_of_selectSources
    (hunits : c.units.map (·.shape) = sources.map fun source ↦ (source, names source, true))
    (hlog : (c.phaseStep unit .instructionSelection).2.log.messages = []) :
    (c.phaseStep unit .instructionSelection).2.units.map (·.shape) =
      sources.map fun source ↦ (source, [source.name], true) := by
  have hfold := (foldl_appends (fun d ↦ d.units.map (·.shape))
    (fun u ↦ (u.source, [u.source.name], true))
    (fun u hu d ↦ shape_of_selectSource (congrArg (·.2.2) (exists_shape_of_mem hunits hu)))
    { c with units := [] } hlog).2
  refine hfold.trans ?_
  exact map_units_of_shapes (fun x ↦ (x.1, [x.1.name], true)) (fun _ ↦ rfl) hunits

/-- Every source gets a class. -/
theorem names_of_generateClasses
    (hunits : c.units.map (·.shape) = sources.map fun source ↦ (source, [source.name], true))
    (hlog : (c.phaseStep unit .classGeneration).2.log.messages = []) :
    (c.phaseStep unit .classGeneration).2.classes.map (·.name) =
      c.classes.map (·.name) ++ sources.map (·.name) := by
  have hround : ∀ u ∈ c.units, ∀ d : Compilation ρ τ,
      (u.classNodes.foldl (generateClass unit u.source) d).log.messages = [] →
        d.log.messages = [] ∧
          (u.classNodes.foldl (generateClass unit u.source) d).classes.map (·.name) =
            d.classes.map (·.name) ++ [u.source.name] := by
    intro u hu d hd
    -- There is one class node, so the loop over the nodes of a source is one round.
    have hnames : u.classNodes.map (·.name) = [u.source.name] :=
      congrArg (·.2.1) (exists_shape_of_mem hunits hu)
    obtain ⟨node, hnode, hname⟩ := List.map_eq_singleton_iff.mp hnames
    rw [hnode, List.foldl_cons, List.foldl_nil] at hd ⊢
    rw [← hname]
    exact name_of_generateClass hd
  refine (foldl_appends (fun d ↦ d.classes.map (·.name)) (·.source.name) hround c hlog).2.trans ?_
  exact congrArg (c.classes.map (·.name) ++ ·)
    (map_units_of_shapes (fun x ↦ x.1.name) (fun _ ↦ rfl) hunits)

end Steps

/-- A silent step takes the sources one stage further. -/
theorem Stage.phaseStep (h : c.Stage unit phase.index)
    (hlog : (c.phaseStep unit phase).2.log.messages = []) :
    (c.phaseStep unit phase).2.Stage unit (phase.index + 1) := by
  cases phase with
  | parsing =>
    refine ⟨(shapes_of_parseSources hlog).2.trans ?_, h.classes⟩
    exact map_units_of_shapes (fun x ↦ (x.1, x.2.1, true)) (fun _ ↦ rfl) h.units
  | semanticAnalysis =>
    refine ⟨(shapes_of_resolveSources hlog).trans h.units, ?_⟩
    exact (congrArg (List.map (·.name)) (classes_resolveSources unit c)).trans h.classes
  | instructionSelection =>
    refine ⟨shapes_of_selectSources h.units hlog, ?_⟩
    refine List.foldlRecOn (motive := fun d : Compilation ρ τ ↦ d.classes.map (·.name) = [])
      c.units _ h.classes fun d hd u _ ↦ ?_
    rw [classes_selectSource]
    exact hd
  | classGeneration =>
    refine ⟨?_, ?_⟩
    · refine List.foldlRecOn (motive := fun d : Compilation ρ τ ↦ d.units.map (·.shape) = _)
        c.units _ h.units fun d hd u _ ↦ ?_
      refine List.foldlRecOn (motive := fun e : Compilation ρ τ ↦ e.units.map (·.shape) = _)
        u.classNodes _ hd fun e he node _ ↦ ?_
      rw [units_generateClass]
      exact he
    · refine (names_of_generateClasses h.units hlog).trans ?_
      rw [h.classes]
      rfl
  | output =>
    rw [phaseStep]
    split
    · exact ⟨h.units, h.classes⟩
    · exact ⟨h.units, h.classes⟩
  | initialization | conversion | canonicalization | finalization => exact ⟨h.units, h.classes⟩

theorem Stage.sources_eq {passed : Nat} (h : c.Stage unit passed) :
    c.units.map (·.source) = unit.sources :=
  (map_units_of_shapes (fun x ↦ x.1) (fun _ ↦ rfl) h.units).trans (List.map_id _)

end Compilation

theorem CompilationUnit.stage_start {ρ τ : Type} (unit : CompilationUnit ρ τ) (w : World)
    (resolverState : ρ) (operationState : τ) :
    (unit.start w resolverState operationState).Stage unit 0 :=
  ⟨List.map_map, rfl⟩

end BuildScript
