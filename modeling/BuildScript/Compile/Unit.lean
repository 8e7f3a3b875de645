import BuildScript.Compile.ClassBuilder
import BuildScript.Compile.CodeGeneration
import BuildScript.Compile.Lookup
import BuildScript.Compile.Message
import BuildScript.Syntax.Grammar

/-!
# Compilation units

Sources that are compiled together. Each phase takes all of them a step further and then runs the
operations that were added to it; if any error was collected, the compilation ends with the phase.

## Design

Resolvers and operations have states of their own: a unit is given a resolver with state `ρ` beside
the world, and operations that observe or change sources with a state `τ`. The state of a
compilation carries both, so everything that a compilation does is in its result.
-/

namespace BuildScript

/-- The text of a script and the class it is compiled to. -/
structure CodeSource where
  text : String
  /-- The name of the class, and of the source in messages. -/
  name : String
  /-- Where the source is said to come from. -/
  codeBase : String
deriving DecidableEq, Repr, Inhabited

/-- Where a script's code is said to come from. -/
def scriptCodeBase : String := "/grove/script"

/-- A source as it moves through the phases. -/
structure SourceUnit where
  source : CodeSource
  /-- The syntax tree, once the text is parsed. -/
  script : Option Script := none
  /-- The class nodes, once instructions are selected. -/
  classNodes : List ClassNode := []
deriving Repr, Inhabited

/-- Work done on every source at the end of a phase. -/
structure Operation (τ : Type) where
  phase : Phase
  call : SourceUnit → τ → Except CompileError Unit × SourceUnit × τ

/-- Adds star imports to every script. -/
def Operation.addStarImports {τ : Type} (packages : List String) : Operation τ where
  phase := .conversion
  call u t := (.ok (), { u with script := u.script.map (packages.foldl Script.addStarImport) }, t)

structure Configuration where
  /-- The class that script classes extend. -/
  scriptBaseClass : String := scriptClassName
  /-- Where class files are written; none are written without it. -/
  targetDirectory : Option Path := none
  /-- Whether class files carry line numbers. -/
  debug : Bool := true
  tolerance : Nat := 10
deriving DecidableEq, Repr, Inhabited

/-- An encoded class. -/
structure CompiledClass where
  name : String
  bytes : List UInt8
deriving DecidableEq, Repr, Inhabited

structure CompilationUnit (ρ τ : Type) where
  configuration : Configuration
  loader : LoaderId
  sources : List CodeSource
  operations : List (Operation τ) := []
  resolver : Resolver (ρ × World)
  /-- A check of class nodes before those of the compiler. -/
  verifier : ClassNode → Except VerificationFault Unit := fun _ ↦ .ok ()
  /-- What the parts of a class are encoded to, in the order in which they are replayed. -/
  encode : List ClassPart → List UInt8 := fun parts ↦ (ClassFile.ofParts parts).encode

/-- A compilation under way. -/
structure Compilation (ρ τ : Type) where
  world : World
  resolverState : ρ
  operationState : τ
  units : List SourceUnit
  log : MessageLog
  classes : List CompiledClass := []

namespace Compilation

variable {ρ τ : Type}

def report (c : Compilation ρ τ) (messages : List Message) : Compilation ρ τ :=
  { c with log := c.log.add messages }

/-! ## The steps of the phases -/

/-- Parses sources in order, until more errors were found than are tolerated; `done` holds those
before, last first. -/
def parseSources (done : List SourceUnit) (log : MessageLog) :
    List SourceUnit → List SourceUnit × MessageLog
  | [] => (done.reverse, log)
  | u :: us =>
    let (u, log) :=
      match parse u.source.text with
      | .ok script => ({ u with script := some script }, log)
      | .error errors =>
        (u, log.add (errors.map fun (e : SyntaxError) ↦
          Message.located ⟨e.message, e.span⟩ u.source.name u.source.text))
    if log.overTolerance then (done.reverse ++ u :: us, log) else parseSources (u :: done) log us

/-- Resolves the names of one source. -/
def resolveSource (resolver : Resolver (ρ × World)) (c : Compilation ρ τ) (u : SourceUnit) :
    Compilation ρ τ :=
  match u.script with
  | none => { c with units := c.units ++ [u] }
  | some script =>
    let (errors, script, resolverState, world) := script.resolve resolver (c.resolverState, c.world)
    let c := { c with resolverState, world, units := c.units ++ [{ u with script := some script }] }
    c.report (errors.map fun e ↦ .located e u.source.name u.source.text)

/-- Resolves names, once the base class of scripts was found. -/
def resolveSources (unit : CompilationUnit ρ τ) (c : Compilation ρ τ) : Compilation ρ τ :=
  let base := unit.configuration.scriptBaseClass
  let (found, world) := c.world.load unit.loader base
  let c := { c with world }
  match found with
  | .ok _ => c.units.foldl (resolveSource unit.resolver) { c with units := [] }
  | .error (.classNotFound _) => c.report [.general ("unable to resolve class " ++ base) none]
  | .error e =>
    c.report [.general ("could not load script base class " ++ base ++ ": " ++ e.message) none]

/-- Makes and verifies the class node of one source. -/
def selectSource (unit : CompilationUnit ρ τ) (c : Compilation ρ τ) (u : SourceUnit) :
    Compilation ρ τ :=
  match u.script with
  | none => { c with units := c.units ++ [u] }
  | some script =>
    let node := ClassNode.ofScript u.source.name unit.configuration.scriptBaseClass script
    match unit.verifier node, node.verify with
    | .ok _, .ok _ => { c with units := c.units ++ [{ u with classNodes := [node] }] }
    | .error fault, _ | .ok _, .error fault =>
      { c with units := c.units ++ [u] }.report [.general fault.message (some u.source.name)]

/-- Makes the class file of a class node. It is named after its source. -/
def generateClass (unit : CompilationUnit ρ τ) (source : CodeSource) (c : Compilation ρ τ)
    (node : ClassNode) : Compilation ρ τ :=
  match node.compile unit.configuration.debug with
  | .error e => c.report [.general e.message (some source.name)]
  | .ok file =>
    let parts := { file with sourceFile := some source.name }.parts
    { c with classes := c.classes ++ [⟨file.name, unit.encode parts⟩] }

/-- Writes class files in order. -/
def writeClasses (target : Path) : List CompiledClass → World → Except CompilationFailure Unit × World
  | [], w => (.ok (), w)
  | k :: ks, w =>
    let path := target.classFile k.name
    let (written, w) := w.onFiles (FileTree.writeBelow path k.bytes)
    match written with
    | .ok _ => writeClasses target ks w
    | .error cause => (.error (.output k.name path cause), w)

/-- Does the step that belongs to a phase. -/
def phaseStep (unit : CompilationUnit ρ τ) (phase : Phase) (c : Compilation ρ τ) :
    Except CompilationFailure Unit × Compilation ρ τ :=
  match phase with
  | .parsing =>
    let (units, log) := parseSources [] c.log c.units
    (.ok (), { c with units, log })
  | .semanticAnalysis => (.ok (), c.resolveSources unit)
  | .instructionSelection => (.ok (), c.units.foldl (selectSource unit) { c with units := [] })
  | .classGeneration =>
    (.ok (), c.units.foldl (fun c u ↦ u.classNodes.foldl (generateClass unit u.source) c) c)
  | .output =>
    match unit.configuration.targetDirectory with
    | none => (.ok (), c)
    | some target =>
      let (result, world) := writeClasses target c.classes c.world
      (result, { c with world })
  | _ => (.ok (), c)

/-! ## Operations -/

/-- Calls an operation on one source. -/
def operate (phase : Phase) (op : Operation τ) (c : Compilation ρ τ) (u : SourceUnit) :
    Compilation ρ τ :=
  let (result, u, operationState) := op.call u c.operationState
  let c := { c with operationState, units := c.units ++ [u] }
  match result with
  | .ok _ => c
  | .error e =>
    c.report [.general ("General error during " ++ phase.name ++ ": " ++ e.message)
      (some u.source.name)]

/-- Runs the operations of a phase, each on every source, in the order in which they were added. -/
def operateAll (unit : CompilationUnit ρ τ) (phase : Phase) (c : Compilation ρ τ) :
    Compilation ρ τ :=
  (unit.operations.filter (·.phase == phase)).foldl
    (fun c op ↦ c.units.foldl (operate phase op) { c with units := [] }) c

/-! ## The compilation -/

/-- Runs a phase. Its operations are left out if its step has failed. -/
def runPhase (unit : CompilationUnit ρ τ) (phase : Phase) (c : Compilation ρ τ) :
    Except CompilationFailure Unit × Compilation ρ τ :=
  match c.phaseStep unit phase with
  | (.error e, c) => (.error e, c)
  | (.ok _, c) =>
    let c := if c.log.hasErrors then c else c.operateAll unit phase
    if c.log.hasErrors then (.error (.multiple phase c.log), c) else (.ok (), c)

/-- Runs phases in order until one fails. -/
def runPhases (unit : CompilationUnit ρ τ) :
    List Phase → Compilation ρ τ → Except CompilationFailure Unit × Compilation ρ τ
  | [], c => (.ok (), c)
  | p :: ps, c =>
    match c.runPhase unit p with
    | (.ok _, c) => runPhases unit ps c
    | (.error e, c) => (.error e, c)

end Compilation

/-- Compiles the sources of a unit. -/
def CompilationUnit.compile {ρ τ : Type} (unit : CompilationUnit ρ τ) (world : World)
    (resolverState : ρ) (operationState : τ) :
    Except CompilationFailure Unit × Compilation ρ τ :=
  Compilation.runPhases unit Phase.all
    { world, resolverState, operationState
      units := unit.sources.map fun source ↦ { source }
      log := { tolerance := unit.configuration.tolerance } }

end BuildScript
