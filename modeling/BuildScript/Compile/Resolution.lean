import BuildScript.Compile.Candidates
import BuildScript.Syntax.Walk

/-!
# Class resolution

Puts class references in place of the names that stand for classes. A name is looked at if it begins
with a capital, or its last segment does, and if its first segment is no local of the body it stands
in. Names that stand for no class remain, and are variables of the binding when the script runs.

## Design

A `Resolver` answers whether a binary name is that of a class. Its state is threaded through the
walk, so that a resolver can remember its answers, load classes, or record what it was asked.
-/

namespace BuildScript

/-- Tells whether there is a class of a binary name, and goes on with another state. -/
structure Resolver (σ : Type) where
  find : String → σ → Bool × σ

namespace Resolver

/-- No question to the resolver breaks the property of its state. -/
def Keeps {σ : Type} (r : Resolver σ) (P : σ → Prop) : Prop := ∀ name s, P s → P (r.find name s).2

/-- The first of the names that is known. -/
def firstKnown? {σ : Type} (r : Resolver σ) : List String → σ → Option String × σ
  | [], s => (none, s)
  | n :: ns, s =>
    let (found, s) := r.find n s
    if found then (some n, s) else r.firstKnown? ns s

/-- Knows exactly the given names and records what it is asked, last first. -/
def recording (known : List String) : Resolver (List String) where
  find name asked := (known.contains name, name :: asked)

end Resolver

/-- An error at a place of a source. -/
structure SourceError where
  message : String
  span : Span
deriving DecidableEq, Repr

/-- The scope in which the names of a script are resolved, and the names resolved so far. -/
structure Scope (σ : Type) where
  imports : Imports := []
  starPackages : List String := []
  resolved : List (String × Option String) := []
  state : σ

namespace Scope

variable {σ : Type}

/-- The class that a name stands for. -/
def resolve (r : Resolver σ) (name : String) (s : Scope σ) : Option String × Scope σ :=
  match s.resolved.lookup name with
  | some known => (known, s)
  | none =>
    let (found, state) := r.firstKnown? (candidateNames name s.imports s.starPackages) s.state
    (found, { s with state, resolved := (name, found) :: s.resolved })

/-- Resolves an import, or reports it. The import of an alias replaces an earlier one. -/
def addImport (r : Resolver σ) (i : Import) (s : Scope σ) : Option SourceError × Scope σ :=
  let (found, state) := r.firstKnown? (nestedForms i.className) s.state
  match found with
  | some binary => (none, { s with state, imports := (i.localName, binary) :: s.imports })
  | none => (some ⟨"unable to resolve class " ++ i.className, i.span⟩, { s with state })

/-- Resolves imports in order; `errors` are those found before, last first. -/
def addImports (r : Resolver σ) (errors : List SourceError) :
    List Import → Scope σ → List SourceError × Scope σ
  | [], s => (errors.reverse, s)
  | i :: is, s =>
    let (error, s) := s.addImport r i
    addImports r (error.toList ++ errors) is s

end Scope

/-- Whether a name looks like that of a class: it begins with an ASCII capital. -/
def isClassLike (name : String) : Bool :=
  match name.toList with
  | c :: _ => 'A' ≤ c && c ≤ 'Z'
  | [] => false

/-- The name by which an expression may refer to a class. -/
def Expr.classCandidate? (isLocal : String → Bool) (e : Expr) : Option String :=
  match e with
  | .var name _ => if isClassLike name && !isLocal name then some name else none
  | .property _ name _ =>
    if isClassLike name then
      e.dottedName?.filter fun full ↦
        !isLocal (String.ofList (full.toList.takeWhile (· != '.')))
    else none
  | _ => none

/-- The rewriter that resolves the names of one body. -/
def Rewriter.resolving {σ : Type} (r : Resolver σ) (isLocal : String → Bool) : Rewriter (Scope σ) where
  method _ s := s
  stmt _ s := s
  expr e s :=
    match e.classCandidate? isLocal with
    | none => (none, s)
    | some name =>
      let (found, s) := s.resolve r name
      (found.map fun binary ↦ .classRef binary e.span, s)

/-- Resolves a body whose locals are the given names and those it declares. -/
def resolveBody {σ : Type} (r : Resolver σ) (parameters : List String) (body : List Stmt)
    (s : Scope σ) : List Stmt × Scope σ :=
  let names := parameters ++ declaredNames body
  Stmt.rewriteAll (.resolving r names.contains) [] body s

/-- Resolves methods in order; `done` holds those before, last first. -/
def resolveMethods {σ : Type} (r : Resolver σ) (done : List Method) :
    List Method → Scope σ → List Method × Scope σ
  | [], s => (done.reverse, s)
  | m :: ms, s =>
    let (body, s) := resolveBody r (m.parameters.map (·.name)) m.body s
    resolveMethods r ({ m with body } :: done) ms s

/-- Resolves the imports and the class references of a script. Imports of unknown classes are
errors. -/
def Script.resolve {σ : Type} (r : Resolver σ) (script : Script) (state : σ) :
    List SourceError × Script × σ :=
  let scope : Scope σ := { state, starPackages := script.starImports.map (·.package) }
  let (errors, s) := scope.addImports r [] script.imports
  let (statements, s) := resolveBody r [] script.statements s
  let (methods, s) := resolveMethods r [] script.methods s
  (errors, { script with statements, methods }, s.state)

end BuildScript
