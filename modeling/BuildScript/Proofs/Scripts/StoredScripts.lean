import BuildScript.Proofs.Compile.StampedClasses
import BuildScript.Proofs.Files.ClassPaths
import BuildScript.Proofs.Loading.NewLoaders
import BuildScript.Proofs.Scripts.CompileRuns
import BuildScript.Proofs.Scripts.Findings

/-!
# What a compilation stores

A compilation that succeeds leaves two files: the class file, stamped with the file name of the
script, and the metadata record. What is in them is determined by the script at the end of the
analysis and by the data of the operation (`Compiled`); the directories had nothing to do with it.

A transformer can do more to a unit than that: a source that it adds has a class file too, and its
methods count as methods of the script. `Confined` is what it has to leave alone. How it resolves
names, which classes it accepts and how it rewrites scripts remains its own affair.

That no other file is left in the directory of the classes depends on its path. If the path goes up
somewhere and does not lead to a directory at first, the operation that empties directories finds
nothing there, while the one that makes them may make it lead to a directory that was there all the
time, with everything in it.
-/

namespace BuildScript

open FileTree Compilation

/-- The flags that a record has for a script. -/
def ScriptFlags.ofScript (script : Script) : ScriptFlags where
  isEmpty := !script.statements.any (·.mayHaveEffect)
  hasMethods := !script.methods.isEmpty

namespace CompileRequest

variable {σ α : Type} (r : CompileRequest σ α) (imports : List String) (initial : σ)

/-! ## Transformers that leave the script alone in its unit -/

/-- After the transformer, if there is one, has taken part, no source is compiled but the script. Its
class file is written where it would be and extends what it would; operations rewrite scripts, and
resolving names leaves the files alone and the loaders in their order. -/
structure Confined : Prop where
  sources : (r.registeredUnit imports).sources = []
  configuration : (r.registeredUnit imports).configuration = (r.plainUnit imports).configuration
  operations : ∀ op ∈ (r.registeredUnit imports).operations, op.RewritesScript
  files : ∀ files, (r.registeredUnit imports).resolver.Keeps fun s ↦ s.2.files = files
  loaders : (r.registeredUnit imports).resolver.Keeps fun s ↦ s.2.Ordered

/-- A transformer that only adds operations leaves the script alone in its unit, if the operations
rewrite scripts; so it is without a transformer. -/
theorem confined_of_adding (h : ∀ t ∈ r.operation.bind (·.transformer), ∃ name operations,
    t = .adding name operations ∧ ∀ op ∈ operations, op.RewritesScript) : r.Confined imports := by
  obtain ⟨added, hunit, hadded⟩ : ∃ added, r.registeredUnit imports = { r.plainUnit imports with
      operations := (r.plainUnit imports).operations ++ added } ∧
        ∀ op ∈ added, op.RewritesScript := by
    rw [registeredUnit]
    split
    next t ht =>
      obtain ⟨name, operations, rfl, hops⟩ := h t ht
      exact ⟨operations, rfl, hops⟩
    next => exact ⟨[], by rw [List.append_nil], List.forall_mem_nil _⟩
  constructor
  case sources =>
    rw [hunit]
    rfl
  case configuration => rw [hunit]
  case operations =>
    rw [hunit]
    refine List.forall_mem_append.mpr ⟨List.forall_mem_singleton.mpr ?_, hadded⟩
    exact Operation.rewritesScript_addStarImports imports
  case files =>
    intro files
    rw [hunit]
    exact r.keeps_plainResolver imports (World.keptByLoading_files files)
  case loaders =>
    rw [hunit]
    exact r.keeps_plainResolver imports World.keptByLoading_ordered

/-! ## Compilations that succeed -/

/-- The build in which the directory of the classes was made anew. -/
def prepared (b : Build) : Build :=
  { b with
    world := { b.world with files := ((recreateDirectory r.classes).run b.world.files).2 } }

/-- The compilation of a text before its first phase. -/
def start (text : String) (w : World) : Compilation (ClassLookup × σ) (σ × Findings) :=
  (r.unit imports text).start w ({ loader := r.parent, sources := none }, initial) (initial, {})

theorem compilation_eq (text : String) (w : World) : r.compilation imports initial text w =
    (r.start imports initial text w).runPhases (r.unit imports text) Phase.all := rfl

variable {r imports} in
theorem Confined.onlyOf_start (h : r.Confined imports) (text : String) (w : World) :
    (r.start imports initial text w).OnlyOf
      { source := ⟨text, r.source.className, scriptCodeBase⟩ } [] := by
  refine ⟨?_, rfl, rfl⟩
  change ((r.registeredUnit imports).sources ++ _).map _ = _
  rw [h.sources]
  rfl

variable {b b' : Build}

theorem compileAndKeep_of_compile (h : (r.compile imports initial).run b = (.ok (), b')) :
    ((recreateDirectory r.classes).run b.world.files).1 = .ok () ∧
      (r.compileAndKeep imports initial).run (r.prepared b) = (.ok (), b') := by
  rw [run_compile] at h
  dsimp only at h
  split at h
  next => cases h
  next hprepared =>
    refine ⟨hprepared, ?_⟩
    rw [run_tryCatch] at h
    split at h
    next b₁ hkept =>
      cases h
      exact hkept
    next e b₁ hfailed =>
      obtain ⟨log, hclean⟩ := r.run_cleanUp e b₁
      rw [hclean] at h
      cases h

theorem compilation_of_compileAndKeep
    (h : (r.compileAndKeep imports initial).run b = (.ok (), b')) :
    ∃ found c, r.source.resource.text b.world.files = .ok found ∧
      r.compilation imports initial (found.getD "") b.world = (.ok (), c) ∧
      c.operationState.2.hasPackage = false ∧
      (r.keepMetadata c.operationState.1 c.operationState.2).run
        { r.announced b with world := c.world } = (.ok (), b') := by
  rw [run_compileAndKeep] at h
  split at h
  next => cases h
  next found hfound =>
    dsimp only at h
    split at h
    next => cases h
    next hok =>
      split at h
      · cases h
      · next hpackage =>
        refine ⟨found, _, hfound, Prod.ext hok rfl, ?_, h⟩
        exact Bool.eq_false_iff.mpr hpackage

theorem writesBelow_of_writeMetadata {directory : Path} {flags : ScriptFlags} {data : Option α}
    {serializer : Option (Serializer α)} {t t' : FileTree}
    (h : (writeMetadata directory flags data serializer).run t = (.ok (), t')) :
    ∃ payload, payloadBytes data serializer = .ok payload ∧
      WritesBelow (metadataFile directory) (flags.toByte :: payload) t t' := by
  rw [run_writeMetadata] at h
  dsimp only at h
  split at h
  next => cases h
  next payload hwritten hpayload =>
    rw [hpayload] at h hwritten
    have hrun : (do
        createDirectory directory
        write (metadataFile directory) (flags.toByte :: payload) : FileM Unit).run t =
          (.ok (), t') := Prod.ext hwritten (Prod.ext_iff.mp h).2
    exact ⟨payload, hpayload, writesBelow_of_makeAndWrite hrun⟩
  next => cases h

/-- Keeping the record changes nothing but the files. -/
theorem writesBelow_of_keepMetadata {state : σ} {findings : Findings}
    (h : (r.keepMetadata state findings).run b = (.ok (), b')) :
    ∃ payload, payloadBytes (r.operation.bind (·.extractedData state))
        (r.operation.bind (·.serializer)) = .ok payload ∧
      WritesBelow (metadataFile r.metadata)
        (ScriptFlags.toByte ⟨findings.isEmpty, findings.hasMethods⟩ :: payload)
        b.world.files b'.world.files ∧
      b' = { b with world := { b.world with files := b'.world.files } } := by
  rw [keepMetadata, Build.run_onFiles] at h
  obtain ⟨hok, rfl⟩ := Prod.ext_iff.mp h
  obtain ⟨payload, hpayload, hwrites⟩ :=
    writesBelow_of_writeMetadata (Prod.ext (eq_ok_of_mapError hok) rfl)
  exact ⟨payload, hpayload, hwrites, rfl⟩

/-! ## What is made of a script -/

/-- What the compilation makes of its source: a text, the script that this is after the analysis, the
class file of the script and the data of the operation. -/
structure Compiled (b : Build) (text : String) (script : Script) (file : ClassFile)
    (data : Option α) : Prop where
  text_eq : ∃ found, r.source.resource.text (r.prepared b).world.files = .ok found ∧
    text = found.getD ""
  script_eq : ∃ c, (r.start imports initial text (r.prepared b).world).runPhases
    (r.unit imports text) Phase.analysis = (.ok (), c) ∧ c.units.map (·.script) = [some script]
  package_eq : script.package = none
  accepted : (ClassNode.ofScript r.source.className r.base.name script).verify = .ok ()
  file_eq : (ClassNode.ofScript r.source.className r.base.name script).compile true = .ok file
  data_eq : data = r.operation.bind (·.extractedData
    (r.compilation imports initial text (r.prepared b).world).2.operationState.1)

/-- The files of a compiled script. -/
structure Stored (files : FileTree) (script : Script) (file : ClassFile) (data : Option α) :
    Prop where
  classFile : files.read (r.classes.classFile r.source.className) =
    .ok (file.stamped r.source.fileName).encode
  record : ∃ payload, payloadBytes data (r.operation.bind (·.serializer)) = .ok payload ∧
    files.read (metadataFile r.metadata) = .ok ((ScriptFlags.ofScript script).toByte :: payload)

/-- There is no file in the directory of the classes but these two. -/
def HoldsNothingElse (files : FileTree) : Prop :=
  ∀ l number, (l, .file number) ∈ files.held r.classes →
    l = (r.classes.classFile r.source.className).place ∨ l = (metadataFile r.metadata).place

/-- The class file of the script is written, and the findings are about the script. -/
theorem written_of_compilation {text : String} {w : World}
    {c : Compilation (ClassLookup × σ) (σ × Findings)} (hconfined : r.Confined imports)
    (h : r.compilation imports initial text w = (.ok (), c)) :
    ∃ c₁ script file, (r.start imports initial text w).runPhases (r.unit imports text)
        Phase.analysis = (.ok (), c₁) ∧ c₁.units.map (·.script) = [some script] ∧
      c.operationState.2 = Findings.ofScript script ∧
      (ClassNode.ofScript r.source.className r.base.name script).verify = .ok () ∧
      (ClassNode.ofScript r.source.className r.base.name script).compile true = .ok file ∧
      WritesBelow (r.classes.classFile r.source.className)
        (file.stamped r.source.fileName).encode w.files c.world.files := by
  rw [compilation_eq, Phase.all_eq] at h
  obtain ⟨c₁, hanalysis, hgeneration⟩ := runPhases_append_eq_ok.mp h
  have hrewrites := r.rewritesScript_of_mem_operations imports text hconfined.operations
  have hstart := hconfined.onlyOf_start initial text w
  have hconfiguration : (r.unit imports text).configuration = (r.plainUnit imports).configuration :=
    hconfined.configuration
  have hresolver : ∀ files, (r.unit imports text).resolver.Keeps fun s ↦ s.2.files = files :=
    hconfined.files
  have htarget : (r.unit imports text).configuration.targetDirectory = some r.classes := by
    rw [hconfiguration]
    rfl
  obtain ⟨script, hscript⟩ := exists_script_of_analysis hrewrites hstart hanalysis
  obtain ⟨hverify, file, hfile, hwritten⟩ :=
    exists_class_of_generation hrewrites hresolver htarget hscript hgeneration
  rw [hconfiguration] at hverify hfile
  have hfindings :=
    r.findings_of_analysis imports text hconfined.operations hstart rfl hanalysis hscript
  have hemits := ClassNode.emits_of_compile hfile
  have hname : file.name = r.source.className := hemits.name_eq
  have hstamped : ClassFile.ofParts (({ file with sourceFile := some r.source.className } :
      ClassFile).parts.map (.stamp r.source.fileName)) = file.stamped r.source.fileName :=
    ClassFile.ofParts_stamp hemits.magic_eq hemits.version_eq
  refine ⟨c₁, script, file, hanalysis, by rw [hscript.units]; rfl, ?_, hverify, hfile, ?_⟩
  · rw [r.findings_of_generation imports text hgeneration, hfindings]
  · have hfiles : c₁.world.files = w.files := by
      have hkept : ((r.start imports initial text w).runPhases (r.unit imports text)
          Phase.analysis).2.world.files = w.files :=
        keeps_earlyPhases (World.keptByLoading_files w.files) (hresolver w.files) (by decide) _ rfl
      rwa [hanalysis] at hkept
    rw [← hstamped, ← hname, ← hfiles]
    exact writesBelow_of_writeBelow hwritten

/-- A compilation that succeeds stores what is made of the script. -/
theorem stored_of_compile (hb : b.world.files.WellFormed) (hname : IsBinaryName r.source.className)
    (hconfined : r.Confined imports)
    (h : (r.compile imports initial).run b = (.ok (), b')) :
    ∃ text script file data, r.Compiled imports initial b text script file data ∧
      r.Stored b'.world.files script file data ∧
      (r.classes.IsPlain ∨ b.world.files.isDirectory r.classes = true →
        r.HoldsNothingElse b'.world.files) := by
  obtain ⟨hprepared, hkept⟩ := r.compileAndKeep_of_compile imports initial h
  obtain ⟨found, c, hfound, hcompilation, hpackage, hmetadata⟩ :=
    r.compilation_of_compileAndKeep imports initial hkept
  obtain ⟨c₁, script, file, hanalysis, hscript, hfindings, hverify, hfile, hclass⟩ :=
    r.written_of_compilation imports initial hconfined hcompilation
  obtain ⟨payload, hpayload, hrecord, -⟩ := r.writesBelow_of_keepMetadata hmetadata
  rw [hfindings] at hpackage hrecord
  have hwf : (r.prepared b).world.files.WellFormed := hb.changes (moves_recreateDirectory r.classes _)
  have hwf₁ := hclass.wellFormed hwf
  have hne := Path.place_classFile_ne_metadataFile r.classes r.metadata hname
  refine ⟨found.getD "", script, file, _, ⟨⟨found, hfound, rfl⟩, ⟨c₁, hanalysis, hscript⟩, ?_, hverify,
    hfile, rfl⟩, ⟨?_, payload, ?_, hrecord.read hwf₁⟩, fun hclasses l number hheld ↦ ?_⟩
  · exact Option.not_isSome_iff_eq_none.mp (Bool.eq_false_iff.mp hpackage)
  · exact hrecord.read_of_ne hwf₁ hne (hclass.read hwf)
  · rw [hcompilation]
    exact hpayload
  · obtain ⟨hlocate, hbelow⟩ := mem_held_iff.mp hheld
    obtain ⟨hmem, hunder⟩ := mem_below_iff.mp hbelow
    obtain ⟨hnode, hne⟩ := (hrecord.wellFormed hwf₁).mem_nodes_iff.mp hmem
    rcases hrecord.file hnode with hnode | heq
    · rcases hclass.file hnode with hnode | heq
      · -- The directory was emptied, so the file is none that was there before.
        have hold := directory_of_recreateDirectory hb (locate_eq_ok_iff.mp hlocate).1 hclasses
          (Prod.ext hprepared rfl) (l, .file number)
          (mem_below_iff.mpr ⟨hwf.mem_nodes_iff.mpr ⟨hnode, hne⟩, hunder⟩)
        cases hold
      · exact .inl heq
    · exact .inr heq

end CompileRequest

end BuildScript
