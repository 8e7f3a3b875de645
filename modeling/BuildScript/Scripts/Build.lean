import BuildScript.Loading.Cache
import BuildScript.Scripts.CompileOperation
import BuildScript.Scripts.ScriptError
import BuildScript.Scripts.Source

/-!
# Compiling scripts into directories

A compiled script occupies two directories: one holds its class file, the other its metadata record.
They may be the same. A compilation empties the first, writes into both, and leaves both empty if it
fails.
-/

namespace BuildScript

inductive LogEntry where
  | info (message : String)
  | warn (message : String)
deriving DecidableEq, Repr

/-- The entry as a log shows it, its level first. -/
def LogEntry.text : LogEntry → String
  | info message => "INFO " ++ message
  | warn message => "WARN " ++ message

/-- The state of a build that compiles and loads scripts. -/
structure Build where
  world : World
  loaders : LoaderCache := {}
  /-- What was logged, last first. -/
  log : List LogEntry := []
deriving Inhabited

/-- An operation of a build that may fail. -/
abbrev BuildM := ExceptT ScriptError (StateM Build)

namespace Build

def report (entry : LogEntry) : BuildM Unit := modify fun b ↦ { b with log := entry :: b.log }

/-- Does something on the files; an error becomes one of the build. -/
def onFiles {ε α : Type} (wrap : ε → ScriptError) (op : ExceptT ε (StateM FileTree) α) : BuildM α :=
  fun b ↦
    let (result, world) := b.world.onFiles op
    (result.mapError wrap, { b with world })

/-- Empties a directory that a failed compilation has used, if it is there. -/
def wipe (directory : Path) : BuildM Unit := do
  if (← get).world.files.existsAt directory then
    try onFiles (.directoryIo directory) (FileTree.recreateDirectory directory)
    catch _ => report (.warn "could not clean script cache directory")

end Build

/-- What a script is compiled with. -/
structure CompileRequest (σ α : Type) where
  source : ScriptSource
  parent : LoaderId
  /-- Where the class file is written. -/
  classes : Path
  /-- Where the metadata record is written. -/
  metadata : Path
  operation : Option (CompileOperation σ α)
  /-- The class that the script's class extends. -/
  base : Class
  /-- A check of the class before those of the compiler. -/
  verifier : ClassNode → Except VerificationFault Unit := fun _ ↦ .ok ()

namespace CompileRequest

variable {σ α : Type}

/-- The error of a script that does not compile. Its messages call the script by its own name. -/
def compilationFailed (source : ScriptSource) : CompilationFailure → ScriptError
  | .multiple phase log =>
    let log := log.rename source.displayName
    .scriptCompilationFailed source.displayName (log.firstPlace?.map (·.2)) (.multiple phase log)
  | e => .scriptCompilationFailed source.displayName none e

/-- The compilation unit that a transformer is given, which has no source yet. Packages are imported
into the script, and names that cannot be those of classes are not looked up. -/
def plainUnit (r : CompileRequest σ α) (imports : List String) :
    CompilationUnit (ClassLookup × σ) σ where
  configuration := { scriptBaseClass := r.base.name, targetDirectory := some r.classes }
  loader := r.parent
  sources := []
  operations := [.addStarImports imports]
  resolver := ClassLookup.resolver.prefiltered.onFirst
  verifier := r.verifier

/-- The unit after the transformer, if there is one, has taken part. -/
def registeredUnit (r : CompileRequest σ α) (imports : List String) :
    CompilationUnit (ClassLookup × σ) σ :=
  match r.operation.bind (·.transformer) with
  | some transformer => transformer.register (r.plainUnit imports)
  | none => r.plainUnit imports

/-- The compilation unit of a request. The script comes behind all that the transformer has added; what
is to be found out about it is found out behind the transformer's operations, and every class file
names the script's file as its source. -/
def unit (r : CompileRequest σ α) (imports : List String) (text : String) :
    CompilationUnit (ClassLookup × σ) (σ × Findings) :=
  let registered := r.registeredUnit imports
  { configuration := registered.configuration
    loader := registered.loader
    sources := registered.sources ++ [⟨text, r.source.className, scriptCodeBase⟩]
    operations := registered.operations.map .onFirst ++
      [.onSecond Findings.detectPackage, .onSecond Findings.detectContent]
    resolver := registered.resolver
    verifier := registered.verifier
    encode := fun parts ↦ (ClassFile.ofParts (parts.map (.stamp r.source.fileName))).encode }

/-- Compiles into the directories, which are left as they are on failure. -/
def compileAndKeep (r : CompileRequest σ α) (imports : List String) (initial : σ) : BuildM Unit := do
  let name := r.source.displayName
  let transformer := (r.operation.bind (·.transformer)).map (·.name)
  Build.report (.info ("Compiling " ++ name ++ " using " ++ transformer.getD "no transformer" ++ "."))
  let text ←
    match r.source.resource.text (← get).world.files with
    | .ok text => pure (text.getD "")
    | .error e => throw (.scriptSourceUnreadable name e)
  let (result, c) :=
    (r.unit imports text).compile (← get).world ({ loader := r.parent, sources := none }, initial)
      (initial, {})
  modify fun b ↦ { b with world := c.world }
  match result with
  | .error e => throw (compilationFailed r.source e)
  | .ok _ =>
    let (state, findings) := c.operationState
    if findings.hasPackage then throw (.illegalPackageStatement name)
    Build.onFiles (.metadataIoError name)
      (writeMetadata r.metadata ⟨findings.isEmpty, findings.hasMethods⟩
        (r.operation.bind (·.extractedData state)) (r.operation.bind (·.serializer)))

/-- Compiles a script into its directories. -/
def compile (r : CompileRequest σ α) (imports : List String) (initial : σ) : BuildM Unit := do
  Build.onFiles (.directoryIo r.classes) (FileTree.recreateDirectory r.classes)
  try r.compileAndKeep imports initial
  catch e =>
    Build.wipe r.classes
    Build.wipe r.metadata
    throw e

end CompileRequest

end BuildScript
