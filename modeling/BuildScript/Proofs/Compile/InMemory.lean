import BuildScript.Proofs.Compile.SeparateSources

/-!
# Compilations to memory

A compilation to memory with the usual resolver changes the world only by loading classes, which is
`CompilationUnit.loading_inMemory`, and loading changes no answer of the loader. So compilations one
after another, of many sources or of one, make the same classes of a source.

The resolver's memory is the one thing that a source could leave behind for the next. It is harmless
because what is remembered of a name is what a search for it still comes to. The invariant is
`ClassLookup.Follows`.
-/

namespace BuildScript

open Relation

/-! ## The usual resolver in a world where classes are loaded -/

namespace ClassLookup

variable {start w : World} {fresh l : ClassLookup}

/-- Whether a search in the world finds a class of the name, whatever the lookup remembers. -/
def known (l : ClassLookup) (w : World) (name : String) : Bool := (l.search name w).1.isSome

/-- Whether a name is known depends on the verdict of the loader and on the sources. -/
theorem known_eq (l : ClassLookup) (w : World) (name : String) :
    l.known w name =
      match Verdict.ofLoad (w.load l.loader name).1 with
      | .found => true
      | .missing => (l.sources.bind fun root ↦ findSource? w.files root name).isSome
      | .broken => false := by
  have hfiles := World.keptByLoading_files w.files l.loader name w rfl
  rw [known, search]
  rcases hload : w.load l.loader name with ⟨e | c, w'⟩
  · rw [hload] at hfiles
    cases e with
    | classNotFound other =>
      dsimp only at hfiles ⊢
      rw [hfiles, Option.isSome_map]
      rfl
    | _ => rfl
  · rfl

theorem known_of_loading (hstart : start.Ordered) (h : start.Loading w) (l : ClassLookup)
    (name : String) : l.known w name = l.known start name := by
  rw [known_eq, known_eq, h.ofLoad_load_eq hstart, h.alike.files_eq]

/-- Behind some questions to a lookup that remembered nothing in the world `start`: the world has
changed by loading only, and what is remembered of a name is whether it was known then. -/
structure Follows (fresh : ClassLookup) (start : World) (s : ClassLookup × World) : Prop where
  loader_eq : s.1.loader = fresh.loader
  sources_eq : s.1.sources = fresh.sources
  loading : start.Loading s.2
  remembers : ∀ name found, s.1.answers.lookup name = some found →
    found.isSome = fresh.known start name

theorem Follows.find (hstart : start.Ordered) (h : Follows fresh start (l, w)) (name : String) :
    (l.find name w).1.isSome = fresh.known start name ∧
      Follows fresh start (l.find name w).2 := by
  rw [ClassLookup.find]
  cases hlookup : l.answers.lookup name with
  | some found => exact ⟨h.remembers name found hlookup, h⟩
  | none =>
    have hfound : l.known w name = fresh.known start name := by
      rw [known_of_loading hstart h.loading, known_eq, known_eq, h.loader_eq, h.sources_eq]
    refine ⟨hfound, h.loader_eq, h.sources_eq, ?_, fun other found hother ↦ ?_⟩
    · rw [world_search]
      exact h.loading.tail ⟨l.loader, name, rfl⟩
    · rw [List.lookup_cons] at hother
      split at hother
      next heq =>
        cases hother
        rw [beq_iff_eq.mp heq]
        exact hfound
      next => exact h.remembers other found hother

theorem knows_of_follows (hstart : start.Ordered) (fresh : ClassLookup) :
    resolver.Knows (Follows fresh start) (fresh.known start) where
  keeps name _ h := (h.find hstart name).2
  answer name _ h := (h.find hstart name).1

end ClassLookup

/-! ## Units in memory -/

/-- A unit that compiles to memory, with the usual resolver and without operations. -/
def CompilationUnit.inMemory (configuration : Configuration) (loader : LoaderId)
    (sources : List CodeSource) : CompilationUnit ClassLookup Unit where
  configuration := { configuration with targetDirectory := none }
  loader
  sources
  resolver := ClassLookup.resolver

theorem CompilationUnit.settled_inMemory {start : World} (hstart : start.Ordered)
    (configuration : Configuration) (fresh : ClassLookup) (sources : List CodeSource) :
    (inMemory configuration fresh.loader sources).Settled (fresh.Follows start)
      (fresh.known start)
      (Verdict.ofLoad (start.load fresh.loader configuration.scriptBaseClass).1 = .found) where
  operations_eq := rfl
  target_eq := rfl
  knows := ClassLookup.knows_of_follows hstart fresh
  keeps_load s h := ⟨h.loader_eq, h.sources_eq, h.loading.tail ⟨_, _, rfl⟩, h.remembers⟩
  ready_iff s h := by
    rw [← h.loading.ofLoad_load_eq hstart, Verdict.ofLoad_eq_found_iff]
    rfl

/-- Compilations to memory do nothing to the world but load classes. -/
theorem CompilationUnit.loading_inMemory (configuration : Configuration) (loader : LoaderId)
    (sources : List CodeSource) (w : World) (l : ClassLookup) :
    w.Loading ((inMemory configuration loader sources).compile w l ()).2.world := by
  have hload : World.KeptByLoading w.Loading := fun id name _ h ↦ h.tail ⟨id, name, rfl⟩
  rw [compile_eq]
  refine Compilation.keeps_of_phases (Q := fun c ↦ w.Loading c.world) ?_ _ .refl
  intro phase _ c hc
  by_cases hphase : phase = .output
  · subst hphase
    have hstep (d : Compilation ClassLookup Unit) (hd : w.Loading d.world) :
        w.Loading (d.phaseStep (inMemory configuration loader sources) .output).2.world := hd
    exact Compilation.keeps_of_step (Q := fun c ↦ w.Loading c.world) hstep
      (fun d hd ↦ by rwa [Compilation.world_operateAll]) c hc
  · exact Compilation.keeps_runPhase hload (ClassLookup.keeps_resolver hload) hphase c hc

/-- The classes that sources are compiled to in memory, unless there are errors. `root` is the
directory with the sources of other classes. -/
def compileInMemory (configuration : Configuration) (loader : LoaderId) (root : Option Path)
    (sources : List CodeSource) (w : World) : Option (List CompiledClass) :=
  match (CompilationUnit.inMemory configuration loader sources).compile w
      { loader, sources := root } () with
  | (.ok _, c) => some c.classes
  | (.error _, _) => none

/-! ## One source and many -/

namespace CodeSource

variable (configuration : Configuration) (loader : LoaderId) (root : Option Path) (start : World)
  (source : CodeSource)

/-- There is the base class of scripts, and no phase finds an error in the source. -/
def Compiles : Prop :=
  Verdict.ofLoad (start.load loader configuration.scriptBaseClass).1 = .found ∧
    SourceUnit.Compiles (.inMemory configuration loader [source])
      (ClassLookup.known { loader, sources := root } start) { source }

/-- The classes that are made of the source. -/
def compiled : List CompiledClass :=
  let unit := CompilationUnit.inMemory configuration loader [source]
  let known := ClassLookup.known { loader, sources := root } start
  (SourceUnit.analyzed unit known { source }).generated unit

end CodeSource

section Together

variable {start w : World} {configuration : Configuration} {loader : LoaderId} {root : Option Path}
  {sources : List CodeSource} {classes : List CompiledClass}

theorem compileInMemory_eq_some :
    compileInMemory configuration loader root sources w = some classes ↔
      ((CompilationUnit.inMemory configuration loader sources).compile w
          { loader, sources := root } ()).1 = .ok () ∧
        ((CompilationUnit.inMemory configuration loader sources).compile w
          { loader, sources := root } ()).2.classes = classes := by
  rw [compileInMemory]
  rcases (CompilationUnit.inMemory configuration loader sources).compile w
    { loader, sources := root } () with ⟨e | ⟨⟨⟩⟩, c⟩
  · simp
  · simp

/-- Whatever classes were loaded before, sources compile if each of them does, to the classes of
each. -/
theorem compileInMemory_eq_some_iff (hstart : start.Ordered) (hw : start.Loading w)
    (hsources : sources ≠ []) :
    compileInMemory configuration loader root sources w = some classes ↔
      (∀ source ∈ sources, source.Compiles configuration loader root start) ∧
        sources.flatMap (·.compiled configuration loader root start) = classes := by
  have hruns := (CompilationUnit.settled_inMemory hstart configuration { loader, sources := root }
    sources).runsSeparately
  have hfollows : ClassLookup.Follows { loader, sources := root } start
      ({ loader, sources := root }, w) :=
    ⟨rfl, rfl, hw, fun _ _ h ↦ by cases h⟩
  have hok := hruns.ok_iff ((CompilationUnit.inMemory configuration loader sources).start w _ ())
    hfollows rfl
  have hclasses := hruns.classes_eq
    ((CompilationUnit.inMemory configuration loader sources).start w _ ()) hfollows rfl
  obtain ⟨first, hfirst⟩ := List.exists_mem_of_ne_nil sources hsources
  have hcompiles : ((CompilationUnit.inMemory configuration loader sources).compile w
      { loader, sources := root } ()).1 = .ok () ↔
        ∀ source ∈ sources, source.Compiles configuration loader root start := by
    rw [CompilationUnit.compile_eq, hok, CompilationUnit.start, List.forall_mem_map]
    exact ⟨fun ⟨hbase, hgood⟩ source hmem ↦ ⟨hbase, hgood source hmem⟩,
      fun h ↦ ⟨(h first hfirst).1, fun source hmem ↦ (h source hmem).2⟩⟩
  rw [compileInMemory_eq_some, ← hcompiles]
  refine and_congr_right fun h ↦ ?_
  rw [CompilationUnit.compile_eq, hclasses h, CompilationUnit.start, List.flatMap_map]
  rfl

/-- Sources that are compiled together do not influence each other. Whatever classes were loaded
before each of the compilations, sources compile together if and only if each of them compiles
alone, and then the classes are those of each source, in order. So another order of the sources only
permutes the classes. -/
theorem compileInMemory_separately (hstart : start.Ordered) (hw : start.Loading w)
    {before : CodeSource → World} (hbefore : ∀ source ∈ sources, start.Loading (before source))
    (hsources : sources ≠ []) :
    ((compileInMemory configuration loader root sources w).isSome ↔ ∀ source ∈ sources,
        (compileInMemory configuration loader root [source] (before source)).isSome) ∧
      ∀ classes, compileInMemory configuration loader root sources w = some classes →
        (classes = sources.flatMap fun source ↦
          (compileInMemory configuration loader root [source] (before source)).getD []) ∧
        ∀ others w', sources.Perm others → start.Loading w' →
          ∃ permuted, compileInMemory configuration loader root others w' = some permuted ∧
            classes.Perm permuted := by
  have halone {source} (hmem : source ∈ sources) (made : List CompiledClass) :
      compileInMemory configuration loader root [source] (before source) = some made ↔
        source.Compiles configuration loader root start ∧
          source.compiled configuration loader root start = made := by
    rw [compileInMemory_eq_some_iff hstart (hbefore source hmem) (List.cons_ne_nil _ _),
      List.flatMap_singleton, List.forall_mem_singleton]
  refine ⟨?_, fun classes hclasses ↦ ?_⟩
  · simp only [Option.isSome_iff_exists, compileInMemory_eq_some_iff hstart hw hsources,
      exists_and_left, exists_eq', and_true]
    refine forall₂_congr fun source hmem ↦ ?_
    simp only [halone hmem, exists_and_left, exists_eq', and_true]
  · obtain ⟨hcompiles, rfl⟩ := (compileInMemory_eq_some_iff hstart hw hsources).mp hclasses
    refine ⟨List.flatMap_congr fun source hmem ↦ ?_, fun others w' hperm hw' ↦ ?_⟩
    · rw [(halone hmem _).mpr ⟨hcompiles source hmem, rfl⟩, Option.getD_some]
    · have hothers : others ≠ [] := fun h ↦ hsources (List.perm_nil.mp (h ▸ hperm))
      refine ⟨_, (compileInMemory_eq_some_iff hstart hw' hothers).mpr
        ⟨fun source hmem ↦ hcompiles source (hperm.mem_iff.mpr hmem), rfl⟩, ?_⟩
      exact hperm.flatMap_right _

end Together

/-- Two scripts that look up the same class, of which the resolver remembers what it is. -/
def printingScripts : List CodeSource :=
  [⟨"println(Map)", "First", "/first"⟩, ⟨"import java.util.Map\nprint(Map)", "Second", "/second"⟩]

/-- Two scripts over the platform, in both orders. -/
theorem compileInMemory_printingScripts :
    ∃ classes, compileInMemory {} 0 none printingScripts (World.start []).2 = some classes ∧
      (classes = printingScripts.flatMap fun source ↦
        (compileInMemory {} 0 none [source] (World.start []).2).getD []) ∧
      ∃ permuted, compileInMemory {} 0 none printingScripts.reverse (World.start []).2 =
        some permuted ∧ classes.Perm permuted := by
  have hcompiled : (compileInMemory {} 0 none printingScripts (World.start []).2).isSome := by
    decide +kernel
  obtain ⟨classes, hclasses⟩ := Option.isSome_iff_exists.mp hcompiled
  obtain ⟨-, hseparately⟩ := compileInMemory_separately (World.ordered_start [])
    (ReflTransGen.refl : World.Loading _ _) (fun _ _ ↦ .refl) (List.cons_ne_nil _ _)
  obtain ⟨hparts, horders⟩ := hseparately classes hclasses
  exact ⟨classes, hclasses, hparts, horders _ _ (List.reverse_perm _).symm .refl⟩

end BuildScript
