import BuildScript.Proofs.Compile.PhaseRuns
import BuildScript.Scripts.Build

/-!
# Runs of a compilation into directories

A compilation prepares the directory of the classes, compiles the text, writes the record, and wipes
both directories if anything behind the preparation fails. The equations here say so step by step;
what holds of compilations is read off them. Apart from what a transformer may do while names are
resolved, the files are changed by the operations of the tree and in no other way. So a well-formed
tree stays well formed.
-/

namespace BuildScript

open Relation

namespace Build

variable {ε α : Type}

theorem run_report (entry : LogEntry) (b : Build) :
    (report entry).run b = (.ok (), { b with log := entry :: b.log }) := rfl

theorem run_onFiles (wrap : ε → ScriptError) (op : ExceptT ε (StateM FileTree) α) (b : Build) :
    (onFiles wrap op).run b =
      ((op.run b.world.files).1.mapError wrap,
        { b with world := { b.world with files := (op.run b.world.files).2 } }) := rfl

/-- Wiping a directory always succeeds, and nothing but the files and the log is touched. -/
theorem run_wipe (directory : Path) (b : Build) : ∃ log, (wipe directory).run b =
    (.ok (), { b with world := { b.world with files := b.world.files.wiped directory }, log }) := by
  rw [wipe, run_bind_ok (run_get b), FileTree.wiped]
  split
  · have hrun := run_onFiles (.directoryIo directory) (FileTree.recreateDirectory directory) b
    cases hresult : ((FileTree.recreateDirectory directory).run b.world.files).1 with
    | ok =>
      rw [hresult] at hrun
      rw [run_tryCatch_ok hrun]
      exact ⟨b.log, rfl⟩
    | error e =>
      rw [hresult] at hrun
      rw [run_tryCatch_error hrun, run_report]
      exact ⟨_, rfl⟩
  · exact ⟨b.log, rfl⟩

end Build

namespace CompileRequest

variable {σ α : Type} (r : CompileRequest σ α) (imports : List String) (initial : σ)

/-- The compilation of a text, and what has become of everything afterwards. -/
def compilation (text : String) (w : World) :
    Except CompilationFailure Unit × Compilation (ClassLookup × σ) (σ × Findings) :=
  (r.unit imports text).compile w ({ loader := r.parent, sources := none }, initial) (initial, {})

/-- The build that a compilation starts from: that there is one was logged. -/
def announced (b : Build) : Build :=
  let transformer := (r.operation.bind (·.transformer)).map (·.name)
  { b with
    log := .info ("Compiling " ++ r.source.displayName ++ " using " ++
      transformer.getD "no transformer" ++ ".") :: b.log }

/-- What is kept of a compilation beside its class file. -/
def keepMetadata (state : σ) (findings : Findings) : BuildM Unit :=
  Build.onFiles (.metadataIoError r.source.displayName)
    (writeMetadata r.metadata ⟨findings.isEmpty, findings.hasMethods⟩
      (r.operation.bind (·.extractedData state)) (r.operation.bind (·.serializer)))

theorem run_compileAndKeep (b : Build) : (r.compileAndKeep imports initial).run b =
    match r.source.resource.text b.world.files with
    | .error e => (.error (.scriptSourceUnreadable r.source.displayName e), r.announced b)
    | .ok text =>
      let outcome := r.compilation imports initial (text.getD "") b.world
      let b' := { r.announced b with world := outcome.2.world }
      match outcome.1 with
      | .error e => (.error (compilationFailed r.source e), b')
      | .ok _ =>
        if outcome.2.operationState.2.hasPackage then
          (.error (.illegalPackageStatement r.source.displayName), b')
        else (r.keepMetadata outcome.2.operationState.1 outcome.2.operationState.2).run b' := by
  rw [compileAndKeep, run_bind_ok (Build.run_report _ b), run_bind_ok (run_get _)]
  dsimp only
  cases r.source.resource.text b.world.files with
  | error e => rfl
  | ok text =>
    dsimp only
    rw [run_bind_ok (run_pure _ _), run_bind_ok (run_get _)]
    dsimp only
    rw [← compilation]
    generalize r.compilation imports initial (text.getD "") b.world = outcome
    obtain ⟨_ | _, c⟩ := outcome
    · rfl
    · dsimp only
      rw [run_bind_ok (run_modify _ _)]
      split
      · rfl
      · rfl

/-- Preparing the directory of the classes comes first, and nothing happens if that fails. -/
theorem run_compile (b : Build) : (r.compile imports initial).run b =
    let prepared := (FileTree.recreateDirectory r.classes).run b.world.files
    let b' := { b with world := { b.world with files := prepared.2 } }
    match prepared.1 with
    | .error cause => (.error (.directoryIo r.classes cause), b')
    | .ok _ =>
      (tryCatch (r.compileAndKeep imports initial) fun e ↦ do
        Build.wipe r.classes
        Build.wipe r.metadata
        throw e).run b' := by
  have hprepare := Build.run_onFiles (.directoryIo r.classes)
    (FileTree.recreateDirectory r.classes) b
  rw [compile]
  dsimp only
  cases hresult : ((FileTree.recreateDirectory r.classes).run b.world.files).1 with
  | error cause =>
    rw [hresult] at hprepare
    exact run_bind_error hprepare
  | ok =>
    rw [hresult] at hprepare
    exact run_bind_ok hprepare

/-- Cleaning up wipes both directories and passes the error on. -/
theorem run_cleanUp (e : ScriptError) (b : Build) : ∃ log,
    (do
      Build.wipe r.classes
      Build.wipe r.metadata
      throw e : BuildM Unit).run b =
        (.error e, { b with
          world := { b.world with files := (b.world.files.wiped r.classes).wiped r.metadata }
          log }) := by
  obtain ⟨log, hclasses⟩ := Build.run_wipe r.classes b
  rw [run_bind_ok hclasses]
  obtain ⟨log', hmetadata⟩ := Build.run_wipe r.metadata
    { b with world := { b.world with files := b.world.files.wiped r.classes }, log }
  rw [run_bind_ok hmetadata]
  exact ⟨log', rfl⟩

/-! ## What happens to the files -/

/-- The record is written behind the directory that is made for it, whether there is a payload to be
written or not. -/
theorem run_writeMetadata (directory : Path) (flags : ScriptFlags) (data : Option α)
    (serializer : Option (Serializer α)) (t : FileTree) :
    (writeMetadata directory flags data serializer).run t =
      let payload := payloadBytes data serializer
      let written := (do
        FileTree.createDirectory directory
        FileTree.write (metadataFile directory) (flags.toByte :: payload.toOption.getD []) :
          FileM Unit).run t
      match written.1, payload with
      | .error e, _ => (.error (.io (metadataFile directory) e), written.2)
      | .ok _, .ok _ => (.ok (), written.2)
      | .ok _, .error e => (.error (.serialization e), written.2) := by
  rw [writeMetadata]
  dsimp only
  generalize payloadBytes data serializer = payload
  generalize hop : (do
    FileTree.createDirectory directory
    FileTree.write (metadataFile directory) (flags.toByte :: payload.toOption.getD []) :
      FileM Unit) = op
  have hadapt : (ExceptT.adapt (.io (metadataFile directory)) op :
      ExceptT MetadataError (StateM FileTree) Unit).run t =
        ((op.run t).1.mapError (.io (metadataFile directory)), (op.run t).2) := rfl
  rw [run_bind, hadapt]
  cases (op.run t).1 with
  | error e => rfl
  | ok => cases payload <;> rfl

theorem changes_writeMetadata (directory : Path) (flags : ScriptFlags) (data : Option α)
    (serializer : Option (Serializer α)) :
    Moves FileTree.Change (writeMetadata directory flags data serializer) := by
  intro t
  have hmoves : Moves FileTree.Change (do
      FileTree.createDirectory directory
      FileTree.write (metadataFile directory)
        (flags.toByte :: (payloadBytes data serializer).toOption.getD []) : FileM Unit) :=
    ((FileTree.moves_createDirectory directory).mono fun _ _ h ↦ h.change).bind fun _ ↦
      (FileTree.moves_write _ _).mono fun _ _ h ↦ h.change
  rw [run_writeMetadata]
  dsimp only
  split
  all_goals exact hmoves t

theorem changes_keepMetadata (state : σ) (findings : Findings) (b : Build) :
    ReflTransGen FileTree.Change b.world.files
      ((r.keepMetadata state findings).run b).2.world.files := by
  rw [keepMetadata, Build.run_onFiles]
  exact changes_writeMetadata _ _ _ _ b.world.files

/-- Resolving names without a transformer keeps what loading classes keeps. -/
theorem keeps_plainResolver {P : World → Prop} (hload : World.KeptByLoading P) :
    (r.plainUnit imports).resolver.Keeps fun s ↦ P s.2 :=
  fun name s hs ↦ ClassLookup.keeps hload name (s.1.1, s.2) hs

/-- Whatever resolver a transformer installs, resolving names leaves a tree. -/
theorem wellFormed_resolver (text : String) :
    (r.unit imports text).resolver.Keeps fun s ↦ s.2.files.WellFormed := by
  have hplain : (r.plainUnit imports).resolver.Keeps fun s ↦ s.2.files.WellFormed :=
    r.keeps_plainResolver imports (World.keptByLoading_of_files FileTree.WellFormed)
  change (r.registeredUnit imports).resolver.Keeps _
  rw [registeredUnit]
  split
  next transformer _ => exact transformer.wellFormed _ hplain
  next => exact hplain

theorem wellFormed_compilation (text : String) {w : World} (hw : w.files.WellFormed) :
    (r.compilation imports initial text w).2.world.files.WellFormed :=
  Compilation.keeps_runPhases (World.keptByLoading_of_files FileTree.WellFormed)
    (fun _ _ hchanges hw ↦ hw.changes hchanges) (r.wellFormed_resolver imports text) Phase.all _ hw

/-- Whatever is done between preparing the directory and cleaning up leaves a tree. -/
theorem wellFormed_compileAndKeep {b : Build} (hb : b.world.files.WellFormed) :
    ((r.compileAndKeep imports initial).run b).2.world.files.WellFormed := by
  rw [run_compileAndKeep]
  cases r.source.resource.text b.world.files with
  | error e => exact hb
  | ok text =>
    have hcompiled := r.wellFormed_compilation imports initial (text.getD "") hb
    dsimp only
    split
    · exact hcompiled
    · split
      · exact hcompiled
      · exact hcompiled.changes (r.changes_keepMetadata _ _ { r.announced b with
          world := (r.compilation imports initial (text.getD "") b.world).2.world })

/-- A compilation that fails has wiped both directories, if the first could be prepared. -/
theorem files_of_compile_error {b b' : Build} {e : ScriptError} (hb : b.world.files.WellFormed)
    (h : (r.compile imports initial).run b = (.error e, b')) :
    let prepared := (FileTree.recreateDirectory r.classes).run b.world.files
    (∃ cause, prepared.1 = .error cause ∧ b'.world.files = prepared.2) ∨
    (prepared.1 = .ok () ∧ ∃ files : FileTree, files.WellFormed ∧
      b'.world.files = (files.wiped r.classes).wiped r.metadata) := by
  intro prepared
  have hprepared : prepared.2.WellFormed :=
    hb.changes (FileTree.moves_recreateDirectory r.classes b.world.files)
  rw [run_compile] at h
  dsimp only at h
  split at h
  next cause hcause =>
    cases h
    exact .inl ⟨cause, hcause, rfl⟩
  next hok =>
    refine .inr ⟨hok, ?_⟩
    have hkept := r.wellFormed_compileAndKeep imports initial
      (b := { b with world := { b.world with files := prepared.2 } }) hprepared
    rw [run_tryCatch] at h
    split at h
    next => cases h
    next e' b₁ hfailed =>
      rw [hfailed] at hkept
      obtain ⟨log, hclean⟩ := r.run_cleanUp e' b₁
      rw [hclean] at h
      cases h
      exact ⟨b₁.world.files, hkept, rfl⟩

end CompileRequest

end BuildScript
