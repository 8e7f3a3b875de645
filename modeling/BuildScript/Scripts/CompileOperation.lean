import BuildScript.Compile.Unit
import BuildScript.Scripts.Payload
import BuildScript.Text.Quoted

/-!
# Compile operations

What is done to a script beyond compiling it, and what is kept of it afterwards: a transformer takes
part in the compilation, an extractor finds data in what the transformer has seen, and a serializer
keeps the data. Every part may be missing.

## Design

A transformer is given the compilation unit of the script and may change it as it likes. Its operations
have states in `σ`, and a resolver that it installs has states in `σ` beside those of the usual lookup.
The one thing that is asked of it is no restriction: a file system is a tree, whoever has changed it.
-/

namespace BuildScript

/-- What takes part in the compilation of a script, under the name that is logged. -/
structure Transformer (σ : Type) where
  name : String
  /-- What is done to the unit: most transformers add operations, but they may also add sources, or
  put another resolver or verifier in place of the one that is there. -/
  register : CompilationUnit (ClassLookup × σ) σ → CompilationUnit (ClassLookup × σ) σ
  /-- Resolving names may change files, but leaves a tree. -/
  wellFormed : ∀ unit, (unit.resolver.Keeps fun s ↦ s.2.files.WellFormed) →
    (register unit).resolver.Keeps fun s ↦ s.2.files.WellFormed := by exact fun _ h ↦ h

/-- The usual transformer, which adds operations. -/
def Transformer.adding {σ : Type} (name : String) (operations : List (Operation σ)) :
    Transformer σ where
  name := name
  register unit := { unit with operations := unit.operations ++ operations }

/-- A compile operation whose transformer has states in `σ` and whose data are in `α`. -/
structure CompileOperation (σ α : Type) where
  /-- Tells the operation from others that compile the same script. -/
  id : String
  transformer : Option (Transformer σ) := none
  extractor : Option (σ → Option α) := none
  serializer : Option (Serializer α) := none

namespace CompileOperation

variable {σ α : Type}

/-- The data to be kept, once the transformer has come to its last state. -/
def extractedData (op : CompileOperation σ α) (state : σ) : Option α :=
  op.extractor.bind fun extract ↦ extract state

/-- A description for logs. -/
def describe (op : CompileOperation σ α) : String :=
  let transformer :=
    match op.transformer with
    | some t => "Some(" ++ quote t.name ++ ")"
    | none => "None"
  let flag (b : Bool) : String := if b then "true" else "false"
  "FactoryBackedCompileOperation \x7b id: " ++ quote op.id ++ ", transformer: " ++ transformer ++
    ", has_extractor: " ++ flag op.extractor.isSome ++ ", has_serializer: " ++
    flag op.serializer.isSome ++ " \x7d"

end CompileOperation

/-! ## What the compiler finds out about a script -/

structure Findings where
  hasPackage : Bool := false
  /-- Whether no statement of the body may have an effect. -/
  isEmpty : Bool := false
  hasMethods : Bool := false
deriving DecidableEq, Repr, Inhabited

/-- Looks for a package statement. -/
def Findings.detectPackage : Operation Findings where
  phase := .canonicalization
  call u f := (.ok (), u, { f with hasPackage := u.script.any (·.package.isSome) })

/-- Looks for statements with effects and for methods. -/
def Findings.detectContent : Operation Findings where
  phase := .canonicalization
  call u f :=
    match u.script with
    | none => (.ok (), u, f)
    | some script =>
      (.ok (), u,
        { f with
          isEmpty := !script.statements.any (·.mayHaveEffect)
          hasMethods := f.hasMethods || !script.methods.isEmpty })

/-- A resolver that keeps its state beside another one. -/
def Resolver.onFirst {ρ σ : Type} (r : Resolver (ρ × World)) : Resolver ((ρ × σ) × World) where
  find name s :=
    let (found, first, w) := r.find name (s.1.1, s.2)
    (found, (first, s.1.2), w)

/-- An operation that keeps its state beside another one. -/
def Operation.onFirst {σ τ : Type} (op : Operation σ) : Operation (σ × τ) where
  phase := op.phase
  call u s :=
    let (result, u, first) := op.call u s.1
    (result, u, first, s.2)

/-- An operation that keeps its state behind another one. -/
def Operation.onSecond {σ τ : Type} (op : Operation τ) : Operation (σ × τ) where
  phase := op.phase
  call u s :=
    let (result, u, second) := op.call u s.2
    (result, u, s.1, second)

end BuildScript
