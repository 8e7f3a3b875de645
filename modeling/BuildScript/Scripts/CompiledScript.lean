import BuildScript.Loading.Search
import BuildScript.Scripts.Build

/-!
# Compiled scripts

A compiled script is a handle on two directories. The metadata record is read when the handle is
made; the class is loaded on first use, through the loader that the cache keeps for the script, and
kept from then on.
-/

namespace BuildScript

structure CompiledScript (α : Type) where
  flags : ScriptFlags
  /-- The id under which the script's loader is cached. -/
  loaderId : String
  /-- The class that the script's class has to extend. -/
  base : Class
  directory : Path
  parent : LoaderId
  source : ScriptSource
  /-- What the compile operation kept. -/
  data : Option α
  /-- The class, once it was loaded. -/
  loaded : Option Class := none

namespace CompiledScript

variable {σ α : Type}

/-- Whether running the script could have an effect. -/
def doesSomething (s : CompiledScript α) : Bool := !s.flags.isEmpty

/-- Reads back what a compilation has written. The loader of an empty script is not needed any more
and leaves the cache, whatever becomes of the payload. -/
def ofDirectories (r : CompileRequest σ α) (loaderId : String) : BuildM (CompiledScript α) := do
  let unreadable := ScriptError.metadataUnreadable r.source.displayName
  let files := (← get).world.files
  let reader ← ofExcept ((MetadataReader.openIn files r.metadata).mapError unreadable)
  let (flags, reader) := reader.readFlags files
  let flags ← ofExcept (flags.mapError unreadable)
  if flags.isEmpty then modify fun b ↦ { b with loaders := (b.loaders.remove loaderId).2 }
  let data ←
    match r.operation.bind (·.serializer) with
    | some serializer => ofExcept ((reader.readData files serializer).1.mapError unreadable)
    | none => pure none
  return {
    flags, loaderId, base := r.base, directory := r.classes, parent := r.parent, source := r.source
    data }

/-- Loads the class through the cached loader. -/
def load (s : CompiledScript α) : BuildM Class := do
  let b ← get
  let (loader, loaders, world) := b.loaders.get b.world s.loaderId ⟨[s.directory], some s.parent, none⟩
  let (found, world) := world.load loader s.source.className
  set { b with loaders, world }
  match found.bind (·.asSubclass s.base) with
  | .ok c => return c
  | .error cause =>
    let path := s.directory.classFile s.source.className
    let name := s.source.displayName
    if world.files.isFile path then throw (.compiledArtifactUnloadable name cause)
    else throw (.compiledArtifactMissing name path cause)

/-- The class of the script, and the handle that has it. -/
def loadClass (s : CompiledScript α) : BuildM (Class × CompiledScript α) := do
  if s.flags.isEmpty && !s.flags.hasMethods then throw .unloadableEmptyScript
  match s.loaded with
  | some c => return (c, s)
  | none =>
    let c ← s.load
    return (c, { s with loaded := some c })

/-- A description for logs, given how data are shown. -/
def describe (s : CompiledScript α) (dataText : α → String) : String :=
  let flag (b : Bool) : String := if b then "true" else "false"
  let data :=
    match s.data with
    | some d => "Some(" ++ dataText d ++ ")"
    | none => "None"
  "ClassesDirCompiledScript \x7b source: " ++ quote s.source.displayName ++ ", is_empty: " ++
    flag s.flags.isEmpty ++ ", has_methods: " ++ flag s.flags.hasMethods ++
    ", class_loader_id: ClassLoaderId(" ++ quote s.loaderId ++ "), classes_dir: " ++
    quote s.directory.text ++ ", data: " ++ data ++ ", loaded: " ++ flag s.loaded.isSome ++ " \x7d"

end CompiledScript

end BuildScript
