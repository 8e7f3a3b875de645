import BuildScript.Compile.Unit

/-!
# Script loaders

A loader that compiles scripts and defines the classes in memory.
-/

namespace BuildScript

inductive ParseClassError where
  | compilation (cause : CompilationFailure)
  /-- A compiled class could not be defined. -/
  | define (className : String) (cause : LoadError)
  | noClass (sourceName : String)

def ParseClassError.message : ParseClassError → String
  | compilation cause => cause.message
  | define className _ => "Compiled class " ++ className ++ " could not be defined"
  | noClass sourceName => "Compilation of " ++ sourceName ++ " produced no class"

structure ScriptLoader where
  /-- The loader in which classes are defined. -/
  loader : LoaderId
  parent : LoaderId
  configuration : Configuration
  sources : Option Path

namespace ScriptLoader

/-- A new script loader. -/
def create (w : World) (parent : LoaderId) (configuration : Configuration) (sources : Option Path) :
    ScriptLoader × World :=
  let (loader, w) := w.addClassPath [] (some parent)
  (⟨loader, parent, configuration, sources⟩, w)

/-- Defines compiled classes in order; `main` is the class of the wanted name among those before. -/
def defineAll (loader : LoaderId) (name : String) (main : Option Class) :
    List CompiledClass → World → Except ParseClassError (Option Class) × World
  | [], w => (.ok main, w)
  | k :: ks, w =>
    match ClassFile.decode k.bytes with
    | .error e => (.error (.define k.name (.malformed ⟨"<memory>/" ++ k.name⟩ e)), w)
    | .ok file =>
      match w.defineClass loader file with
      | (.error e, w) => (.error (.define k.name e), w)
      | (.ok c, w) => defineAll loader name (if c.name == name then some c else main) ks w

/-- Compiles a source and gives the class of its name. -/
def parseClass (l : ScriptLoader) (source : CodeSource) (w : World) :
    Except ParseClassError Class × World :=
  let unit : CompilationUnit ClassLookup Unit :=
    { configuration := l.configuration, loader := l.parent, sources := [source]
      resolver := ClassLookup.resolver }
  let (result, c) := unit.compile w { loader := l.parent, sources := l.sources } ()
  match result with
  | .error e => (.error (.compilation e), c.world)
  | .ok _ =>
    match defineAll l.loader source.name none c.classes c.world with
    | (.ok (some main), w) => (.ok main, w)
    | (.ok none, w) => (.error (.noClass source.name), w)
    | (.error e, w) => (.error e, w)

end ScriptLoader

end BuildScript
