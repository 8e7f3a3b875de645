import BuildScript.Proofs.Loading.NewLoaders
import BuildScript.Proofs.Scripts.Records
import BuildScript.Proofs.Scripts.StoredScripts

/-!
# Loading back compiled scripts

What a compilation has stored can be loaded: the record gives a handle that knows whether the script
does something and which data were kept, and the handle gives the class of the script, with the code
that was generated, below the base class.

Loading goes through the parent of the script's loader, and through a cache of loaders. So besides
the stored files it takes that the parent does not know a class of the script's name, that it still
loads the base class, and that the cache does not give out a loader that has read the directory
before (`Loadable`). The parent's searches are the same with and without the new loader, which no
other loader asks.
-/

namespace BuildScript

open FileTree Compilation

/-! ## Loading a class -/

/-- A class is accepted if its superclass has the name of the base class. -/
theorem Class.asSubclass_compiled {id : Nat} {file : ClassFile} {superclass base : Class}
    (h : superclass.name = base.name) : (Class.compiled id file (some superclass)).asSubclass base =
      .ok (.compiled id file (some superclass)) := by
  rw [asSubclass, if_pos]
  have hsuper : (superclass.entry.name == base.name) = true := beq_iff_eq.mpr h
  change (file.name == base.name || (superclass.entry.name == base.name ||
    superclass.ancestors.any (·.name == base.name))) = true
  rw [hsuper, Bool.true_or, Bool.or_true]

namespace CompiledScript

variable {α : Type} {s : CompiledScript α} {b : Build} {c : Class} {w : World}

/-- The class is loaded through a new loader, if the cache has none that will do. -/
theorem run_load (hlacks : b.loaders.Lacks s.loaderId ⟨[s.directory], some s.parent, none⟩)
    (hload : (b.world.addClassPath [s.directory] (some s.parent)).2.load
      (b.world.addClassPath [s.directory] (some s.parent)).1 s.source.className = (.ok c, w))
    (hbase : c.asSubclass s.base = .ok c) : ∃ b', s.load.run b = (.ok c, b') := by
  obtain ⟨cache, hget⟩ := hlacks.get b.world
  refine ⟨{ b with loaders := cache, world := w }, ?_⟩
  rw [load, run_bind_ok (run_get b), hget]
  dsimp only [LoaderCache.create]
  rw [hload]
  dsimp only
  have hfound : (Except.ok c : Except LoadError Class).bind (·.asSubclass s.base) = .ok c := hbase
  rw [run_bind_ok (run_set b _), hfound]
  rfl

/-- What is loaded is kept by the handle. -/
theorem run_loadClass {b' : Build} (hflags : (s.flags.isEmpty && !s.flags.hasMethods) = false)
    (hloaded : s.loaded = none) (hload : s.load.run b = (.ok c, b')) :
    s.loadClass.run b = (.ok (c, { s with loaded := some c }), b') := by
  rw [loadClass, hflags, if_neg Bool.false_ne_true, hloaded]
  dsimp only
  rw [run_bind_ok hload]
  rfl

end CompiledScript

namespace CompileRequest

variable {σ α : Type} (r : CompileRequest σ α)

/-! ## What is to be loaded -/

/-- The handle of a script. -/
structure IsHandleOf (handle : CompiledScript α) (script : Script) (data : Option α) : Prop where
  doesSomething_eq : handle.doesSomething = script.statements.any (·.mayHaveEffect)
  hasMethods_eq : handle.flags.hasMethods = !script.methods.isEmpty
  data_eq : handle.data = keptData data (r.operation.bind (·.serializer))

/-- The class of a script. -/
structure IsClassOf (c : Class) (script : Script) (file : ClassFile) : Prop where
  name_eq : c.name = r.source.className
  superclass_eq : c.superclass?.map (·.name) = some r.base.name
  sourceFile_eq : c.sourceFile? = r.source.fileName
  methods_eq : c.entry.declaredMethods = script.methods.map (·.name) ++ ["run"]
  body_eq : c.entry.body = .compiled (file.stamped r.source.fileName)

/-- The directories give the handle of the script, and the handle gives its class, unless there is
nothing in the script that a class would be needed for. -/
def LoadsBack (b : Build) (loaderId : String) (script : Script) (file : ClassFile)
    (data : Option α) : Prop :=
  ∃ handle b₁, (CompiledScript.ofDirectories r loaderId).run b = (.ok handle, b₁) ∧
    r.IsHandleOf handle script data ∧
    (script.statements.any (·.mayHaveEffect) = false → script.methods = [] →
      handle.loadClass.run b₁ = (.error .unloadableEmptyScript, b₁)) ∧
    (script.statements.any (·.mayHaveEffect) = true ∨ script.methods ≠ [] →
      ∃ c handle' b₂, handle.loadClass.run b₁ = (.ok (c, handle'), b₂) ∧ r.IsClassOf c script file)

/-- The surroundings of a script let it be loaded. -/
structure Loadable (b : Build) (loaderId : String) : Prop where
  missing : (b.world.load r.parent r.source.className).1 =
    .error (.classNotFound r.source.className)
  base : (b.world.load r.parent r.base.name).1.map (·.name) = .ok r.base.name
  fresh : b.loaders.Lacks loaderId ⟨[r.classes], some r.parent, none⟩

/-! ## Loading what was stored -/

variable {r} {imports : List String} {initial : σ} {b b' : Build} {text : String} {script : Script}
  {file : ClassFile} {data : Option α}

theorem Compiled.wellFormed_stamped (h : r.Compiled imports initial b text script file data)
    (hname : IsBinaryName r.source.className)
    (hcode : ∀ m ∈ file.methods, m.code.size < 2 ^ 31)
    (hencodable : (file.stamped r.source.fileName).Encodable) :
    (file.stamped r.source.fileName).WellFormed :=
  (ClassNode.emits_of_compile h.file_eq).wellFormed_stamped hname.ne_empty h.accepted hcode
    hencodable.constants.addressable _

theorem Compiled.name_eq (h : r.Compiled imports initial b text script file data) :
    file.name = r.source.className := (ClassNode.emits_of_compile h.file_eq).name_eq

/-- A new class path loader makes the class of the script. -/
theorem exists_class_of_stored (h : r.Compiled imports initial b text script file data)
    (hstored : r.Stored b'.world.files script file data) (hb : b'.world.Ordered)
    (hname : IsBinaryName r.source.className)
    (hencodable : (file.stamped r.source.fileName).Encodable)
    (hcode : ∀ m ∈ file.methods, m.code.size < 2 ^ 31) {loaderId : String}
    (hloadable : r.Loadable b' loaderId) :
    ∃ c w, (b'.world.addClassPath [r.classes] (some r.parent)).2.load
        (b'.world.addClassPath [r.classes] (some r.parent)).1 r.source.className = (.ok c, w) ∧
      c.asSubclass r.base = .ok c ∧ r.IsClassOf c script file := by
  obtain ⟨superclass, w₁, hload, hsuper⟩ : ∃ superclass w, b'.world.load r.parent r.base.name =
      (.ok superclass, w) ∧ superclass.name = r.base.name := by
    have hbase := hloadable.base
    generalize b'.world.load r.parent r.base.name = outcome at hbase ⊢
    rcases outcome with ⟨e | superclass, w⟩
    · cases hbase
    · exact ⟨superclass, w, rfl, Except.ok.inj hbase⟩
  have hname' : (file.stamped r.source.fileName).name = r.source.className := h.name_eq
  have hread := hstored.classFile
  have hmissing := hloadable.missing
  rw [← hname'] at hread hmissing ⊢
  have hfound := readClassFile_of_read hread hencodable
    (h.wellFormed_stamped hname hcode hencodable)
  have hne : (file.stamped r.source.fileName).name ≠ "" := by
    rw [hname']
    exact hname.ne_empty
  obtain ⟨w₂, hw₂⟩ := World.load_newClassPath hb hne hmissing hfound
    (ClassNode.superName_of_compile h.file_eq) hload
  refine ⟨_, w₂, hw₂, Class.asSubclass_compiled hsuper, ?_⟩
  refine ⟨hname', congrArg some hsuper, rfl, ?_, rfl⟩
  have hmethods := ClassNode.methods_of_compile h.file_eq
  rw [ClassNode.ofScript, List.map_append] at hmethods
  exact hmethods

theorem loadsBack_of_stored (h : r.Compiled imports initial b text script file data)
    (hstored : r.Stored b'.world.files script file data) (hb : b'.world.Ordered)
    (hname : IsBinaryName r.source.className)
    (hserializer : ∀ s ∈ r.operation.bind (·.serializer), s.Faithful)
    (hencodable : (file.stamped r.source.fileName).Encodable)
    (hcode : ∀ m ∈ file.methods, m.code.size < 2 ^ 31) {loaderId : String}
    (hloadable : r.Loadable b' loaderId) : r.LoadsBack b' loaderId script file data := by
  obtain ⟨payload, hpayload, hrecord⟩ := hstored.record
  obtain ⟨b₁, hhandle, hworld, hloaders⟩ :=
    CompiledScript.ofDirectories_ok r loaderId hserializer hpayload hrecord
  obtain ⟨c, w, hload, hbase, hclass⟩ :=
    exists_class_of_stored h hstored hb hname hencodable hcode hloadable
  have hlacks : b₁.loaders.Lacks loaderId ⟨[r.classes], some r.parent, none⟩ := by
    rcases hloaders with heq | heq
    · rw [heq]
      exact hloadable.fresh
    · rw [heq]
      exact LoaderCache.lacks_remove _ _ _
  refine ⟨_, b₁, hhandle, ⟨Bool.not_not _, rfl, rfl⟩, fun hnothing hmethods ↦ ?_, fun hsome ↦ ?_⟩
  · rw [CompiledScript.loadClass, if_pos]
    · rfl
    · rw [ScriptFlags.ofScript, hnothing, hmethods]
      rfl
  · rw [← hworld] at hload
    obtain ⟨b₂, hrun⟩ := CompiledScript.run_load (s := {
      flags := .ofScript script, loaderId, base := r.base, directory := r.classes
      parent := r.parent, source := r.source
      data := keptData data (r.operation.bind (·.serializer)) }) hlacks hload hbase
    refine ⟨c, _, b₂, CompiledScript.run_loadClass ?_ rfl hrun, hclass⟩
    rcases hsome with heffect | hmethods
    · rw [ScriptFlags.ofScript, heffect]
      rfl
    · rw [ScriptFlags.ofScript, List.isEmpty_eq_false_iff.mpr hmethods]
      exact Bool.and_false _

/-! ## Compilations and what they leave of the loaders -/

/-- Compiling leaves the loaders in their order, and does not touch the cache of them. -/
theorem loaders_of_compile (hb : b.world.Ordered) (hconfined : r.Confined imports)
    (h : (r.compile imports initial).run b = (.ok (), b')) :
    b'.world.Ordered ∧ b'.loaders = b.loaders := by
  obtain ⟨-, hkept⟩ := r.compileAndKeep_of_compile imports initial h
  obtain ⟨found, c, -, hcompilation, -, hmetadata⟩ :=
    r.compilation_of_compileAndKeep imports initial hkept
  obtain ⟨-, -, -, hb'⟩ := r.writesBelow_of_keepMetadata hmetadata
  have hresolver : (r.unit imports (found.getD "")).resolver.Keeps fun s ↦ s.2.Ordered :=
    hconfined.loaders
  have hordered : c.world.Ordered := by
    have hruns : ((r.start imports initial (found.getD "") (r.prepared b).world).runPhases
        (r.unit imports (found.getD "")) Phase.all).2.world.Ordered :=
      keeps_runPhases World.keptByLoading_ordered (fun _ files _ hw ↦ hw.withFiles files) hresolver
        Phase.all _ hb
    rwa [← compilation_eq, hcompilation] at hruns
  rw [hb']
  exact ⟨hordered, rfl⟩

/-- A compilation that succeeds has stored the class file and the record of its script, and they can
be loaded back. No other file is in the directory of the classes, if the path of the directory does
not go up or has led to a directory before. -/
theorem loadsBack_of_compile (r : CompileRequest σ α) (imports : List String) (initial : σ)
    {b b' : Build} (hfiles : b.world.files.WellFormed) (hloaders : b.world.Ordered)
    (hname : IsBinaryName r.source.className)
    (hconfined : r.Confined imports)
    (hserializer : ∀ s ∈ r.operation.bind (·.serializer), s.Faithful)
    (h : (r.compile imports initial).run b = (.ok (), b')) :
    ∃ text script file data, r.Compiled imports initial b text script file data ∧
      r.Stored b'.world.files script file data ∧
      (r.classes.IsPlain ∨ b.world.files.isDirectory r.classes = true →
        r.HoldsNothingElse b'.world.files) ∧
      ((file.stamped r.source.fileName).Encodable → (∀ m ∈ file.methods, m.code.size < 2 ^ 31) →
        ∀ loaderId, r.Loadable b' loaderId → r.LoadsBack b' loaderId script file data) := by
  obtain ⟨text, script, file, data, hcompiled, hstored, hclasses⟩ :=
    r.stored_of_compile imports initial hfiles hname hconfined h
  refine ⟨text, script, file, data, hcompiled, hstored, hclasses, ?_⟩
  intro hencodable hcode loaderId hloadable
  exact loadsBack_of_stored hcompiled hstored (loaders_of_compile hloaders hconfined h).1 hname
    hserializer hencodable hcode hloadable

/-! A script with a method, and an operation that counts its passes and keeps whether there was one. -/

def counting : CompileOperation Nat Bool where
  id := "count"
  transformer := some (.adding "counter"
    [⟨.canonicalization, fun u passes ↦ (.ok (), u, passes + 1)⟩])
  extractor := some fun passes ↦ some (passes == 1)
  serializer := some .boolean

def two : CompileRequest Nat Bool where
  source := ⟨"script 'a'", "A", some "a.gradle", .memory (some "def two() { 2 }")⟩
  parent := 0
  classes := ⟨"/classes"⟩
  metadata := ⟨"/metadata"⟩
  operation := some counting
  base := .native 0 "groovy.lang.Script" none []

def emptyBuild : Build := { world := (World.start []).2 }

/-- What the proof below needs to know about the script and the state of the operation. -/
theorem two_compiled :
    let c := two.start [] 0 "def two() { 2 }" (two.prepared emptyBuild).world
    (∀ u ∈ (c.runPhases (two.unit [] "def two() { 2 }") Phase.analysis).2.units,
      ∀ script ∈ u.script, script.methods.map (·.name) = ["two"] ∧
        script.statements.any (·.mayHaveEffect) = false ∧
        ∀ file ∈ ((ClassNode.ofScript "A" "groovy.lang.Script" script).compile true).toOption,
          (file.stamped (some "a.gradle")).Encodable ∧ ∀ m ∈ file.methods, m.code.size < 2 ^ 31) ∧
    (c.runPhases (two.unit [] "def two() { 2 }") Phase.all).2.operationState.1 = 1 := by
  decide +kernel

theorem eq_error_of_map {ε α β : Type} {f : α → β} {x : Except ε α} {e : ε}
    (h : x.map f = .error e) : x = .error e := by
  cases x with
  | error e' =>
    cases h
    rfl
  | ok a => cases h

theorem faithful_two : ∀ s ∈ two.operation.bind (·.serializer), s.Faithful := by
  intro s hs
  obtain rfl : Serializer.boolean = s := Option.some.inj hs
  exact Serializer.faithful_boolean

theorem confined_two (imports : List String) : two.Confined imports := by
  refine two.confined_of_adding imports fun t ht ↦ ⟨_, _, (Option.some.inj ht).symm, ?_⟩
  exact List.forall_mem_singleton.mpr ⟨fun _ _ ↦ rfl, fun _ _ ↦ rfl, fun _ _ ↦ rfl⟩

theorem two_loads_back : ∃ b' handle b₁ c handle' b₂,
    (two.compile [] 0).run emptyBuild = (.ok (), b') ∧
      (CompiledScript.ofDirectories two "a").run b' = (.ok handle, b₁) ∧
      handle.doesSomething = false ∧ handle.data = some true ∧
      handle.loadClass.run b₁ = (.ok (c, handle'), b₂) ∧ c.name = "A" ∧
      c.sourceFile? = some "a.gradle" ∧ c.entry.declaredMethods = ["two", "run"] := by
  have hok : ((two.compile [] 0).run emptyBuild).1.isOk = true := by decide +kernel
  have hname : IsBinaryName two.source.className := by
    have hsegments : splitText '.' two.source.className = ["A"] := by decide
    rw [IsBinaryName, hsegments, List.forall_mem_singleton]
    exact ⟨by decide, by decide⟩
  have hmissing : ((((two.compile [] 0).run emptyBuild).2.world.load 0 "A").1.map (·.name)) =
      .error (.classNotFound "A") := by decide +kernel
  have hbase : ((((two.compile [] 0).run emptyBuild).2.world.load 0 "groovy.lang.Script").1.map
      (·.name)) = .ok "groovy.lang.Script" := by decide +kernel
  rcases hrun : (two.compile [] 0).run emptyBuild with ⟨e | ⟨⟨⟩⟩, b'⟩
  · rw [hrun] at hok
    cases hok
  rw [hrun] at hmissing hbase
  have hordered : emptyBuild.world.Ordered := World.ordered_start []
  obtain ⟨text, script, file, data, hcompiled, -, -, hloads⟩ := two.loadsBack_of_compile [] 0
    wellFormed_empty hordered hname (confined_two []) faithful_two hrun
  obtain ⟨found, hfound, rfl⟩ := hcompiled.text_eq
  obtain rfl : some "def two() { 2 }" = found := Except.ok.inj hfound
  obtain ⟨c, hanalysis, hunits⟩ := hcompiled.script_eq
  obtain ⟨u, hu, hscript⟩ := List.map_eq_singleton_iff.mp hunits
  obtain ⟨hfacts, hstate⟩ := two_compiled
  have hc : c = ((two.start [] 0 "def two() { 2 }" (two.prepared emptyBuild).world).runPhases
      (two.unit [] "def two() { 2 }") Phase.analysis).2 := (congrArg Prod.snd hanalysis).symm
  rw [← hc, hu, List.forall_mem_singleton] at hfacts
  obtain ⟨hmethods, hnothing, hfile⟩ := hfacts script hscript
  obtain ⟨hencodable, hcode⟩ := hfile file (congrArg Except.toOption hcompiled.file_eq)
  have hloadable : two.Loadable b' "a" := by
    refine ⟨?_, hbase, ?_⟩
    · exact eq_error_of_map hmissing
    · rw [(loaders_of_compile hordered (confined_two []) hrun).2]
      intro made loader hlookup
      cases hlookup
  obtain ⟨handle, b₁, hhandle, hdirectories, -, hclass⟩ := hloads hencodable hcode "a" hloadable
  have hsome : script.methods ≠ [] := by
    intro hnil
    rw [hnil] at hmethods
    cases hmethods
  obtain ⟨cls, handle', b₂, hload, hcls⟩ := hclass (.inr hsome)
  refine ⟨b', handle, b₁, cls, handle', b₂, rfl, hhandle, ?_, ?_, hload, hcls.name_eq,
    hcls.sourceFile_eq, ?_⟩
  · rw [hdirectories.doesSomething_eq, hnothing]
  · rw [hdirectories.data_eq, hcompiled.data_eq]
    change some ((two.compilation [] 0 "def two() { 2 }"
      (two.prepared emptyBuild).world).2.operationState.1 == 1) = some true
    rw [compilation_eq, hstate]
    rfl
  · rw [hcls.methods_eq, hmethods]
    rfl

/-- The same operation, with a transformer that adds a source. -/
def generating : CompileRequest Nat Bool := { two with
  operation := some { counting with
    transformer := some {
      name := "generator"
      register := fun unit ↦
        { unit with sources := unit.sources ++ [⟨"1", "B", scriptCodeBase⟩] } } } }

-- Such a transformer is not confined, and there are two class files.
example : (((generating.compile [] 0).run emptyBuild).2.world.files.held generating.classes).map
    Prod.fst = [["classes", "B.class"], ["classes", "A.class"]] := by
  decide +kernel

/-! The same script, with a path that goes up from a directory that is not there, to one with a class
file of an earlier compilation. -/

def climbing : CompileRequest Nat Bool := { two with classes := ⟨"/x/../classes"⟩ }

def staleBuild : Build :=
  { world := { (World.start []).2 with
      files := ((writeBelow ⟨"/classes/B.class"⟩ [1, 2]).run {}).2 } }

theorem wellFormed_staleBuild : staleBuild.world.files.WellFormed := by
  have h := wellFormed_empty.changes (moves_writeBelow ⟨"/classes/B.class"⟩ [1, 2] {})
  dsimp only [staleBuild]
  exact h

theorem climbing_keeps_stale_class :
    staleBuild.world.files.WellFormed ∧ staleBuild.world.Ordered ∧
      (staleBuild.world.load climbing.parent climbing.source.className).1 =
        .error (.classNotFound climbing.source.className) ∧
      ((climbing.compile [] 0).run staleBuild).1.isOk = true ∧
      ((climbing.compile [] 0).run staleBuild).2.world.files.read ⟨"/x/../classes/B.class"⟩ =
        .ok [1, 2] ∧
      ¬climbing.HoldsNothingElse ((climbing.compile [] 0).run staleBuild).2.world.files := by
  have hmissing : (staleBuild.world.load climbing.parent climbing.source.className).1.map (·.name) =
      .error (.classNotFound climbing.source.className) := by decide +kernel
  refine ⟨wellFormed_staleBuild, ?_, eq_error_of_map hmissing, ?_, ?_, ?_⟩
  · exact (World.ordered_start []).withFiles _
  · decide +kernel
  · decide +kernel
  intro h
  have hheld : (["classes", "B.class"], .file 0) ∈
      ((climbing.compile [] 0).run staleBuild).2.world.files.held climbing.classes := by
    decide +kernel
  rcases h _ _ hheld with heq | heq
  · exact absurd heq (by decide)
  · exact absurd heq (by decide)

end CompileRequest

end BuildScript
