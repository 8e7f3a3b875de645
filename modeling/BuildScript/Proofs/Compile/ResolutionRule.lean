import BuildScript.Proofs.Compile.FirstOccurrences
import BuildScript.Proofs.Compile.Resolving
import BuildScript.Proofs.Syntax.Replacing

/-!
# The rule of class resolution

Resolution walks over a script with a scope that remembers the names resolved so far, and asks a
resolver that may change with every question. If the answers are those of a fixed set of names, all
of this can be told without a state: which imports are errors, which expressions become class
references, and which names the resolver is asked for, in which order.

## Design

What counts as a reading of an expression as a dotted name is left open here, as a function of the
locals of a body. `Scope.Remembers` is the invariant of the walk: the scope's memory holds the
rule's answers for exactly the names looked up, and the resolver was asked for the candidates of
each of them once.
-/

namespace BuildScript

variable {σ : Type} {P : σ → Prop} {known : String → Bool} {r : Resolver σ}

/-! ## Resolvers that know a set of names -/

/-- The names up to and including the first known one. -/
def probed (known : String → Bool) : List String → List String
  | [] => []
  | n :: ns => if known n then [n] else n :: probed known ns

/-- On states with the property `P`, which questions keep, the resolver knows exactly the names of a
set. -/
structure Resolver.Knows (r : Resolver σ) (P : σ → Prop) (known : String → Bool) : Prop where
  keeps : r.Keeps P
  answer : ∀ name s, P s → (r.find name s).1 = known name

/-- The resolver's state behind a sequence of questions. -/
def Resolver.after (r : Resolver σ) (names : List String) (s : σ) : σ :=
  names.foldl (fun s name ↦ (r.find name s).2) s

theorem Resolver.after_append (r : Resolver σ) (names more : List String) (s : σ) :
    r.after (names ++ more) s = r.after more (r.after names s) := List.foldl_append

namespace Resolver.Knows

theorem keeps_after (h : r.Knows P known) (names : List String) {s : σ} (hs : P s) :
    P (r.after names s) := by
  induction names generalizing s with
  | nil => exact hs
  | cons name names ih => exact ih (h.keeps name s hs)

theorem firstKnown?_eq (h : r.Knows P known) (names : List String) {s : σ} (hs : P s) :
    r.firstKnown? names s = (names.find? known, r.after (probed known names) s) := by
  induction names generalizing s with
  | nil => rfl
  | cons name names ih =>
    rw [Resolver.firstKnown?, probed, List.find?_cons]
    dsimp only
    rw [h.answer name s hs]
    cases known name with
    | true => rfl
    | false => exact ih (h.keeps name s hs)

end Resolver.Knows

/-! ## Imports -/

/-- The errors of imports: one for each that no class is known for. -/
def importErrors (known : String → Bool) (imports : List Import) : List SourceError :=
  (imports.filter fun i ↦ !(nestedForms i.className).any known).map fun i ↦
    ⟨"unable to resolve class " ++ i.className, i.span⟩

/-- The local names that imports bring, with the classes they stand for. Later imports come first,
so that they hide earlier ones. -/
def importTable (known : String → Bool) (imports : List Import) : Imports :=
  (imports.filterMap fun i ↦
    ((nestedForms i.className).find? known).map fun binary ↦ (i.localName, binary)).reverse

/-- The questions that imports lead to. -/
def importProbes (known : String → Bool) (imports : List Import) : List String :=
  imports.flatMap fun i ↦ probed known (nestedForms i.className)

theorem Scope.addImports_eq (h : r.Knows P known) (imports : List Import)
    (errors : List SourceError) {s : Scope σ} (hs : P s.state) :
    s.addImports r errors imports =
      (errors.reverse ++ importErrors known imports,
        { s with
          imports := importTable known imports ++ s.imports
          state := r.after (importProbes known imports) s.state }) := by
  induction imports generalizing errors s with
  | nil => simp [addImports, importErrors, importTable, importProbes, Resolver.after]
  | cons i imports ih =>
    have hkept := h.keeps_after (probed known (nestedForms i.className)) hs
    rw [addImports, addImport, h.firstKnown?_eq _ hs]
    cases hfound : (nestedForms i.className).find? known with
    | some binary =>
      have hany : (nestedForms i.className).any known = true :=
        List.any_eq_true.mpr ⟨binary, List.mem_of_find?_eq_some hfound, List.find?_some hfound⟩
      dsimp only
      rw [ih _ hkept]
      simp [importErrors, importTable, importProbes, hany, hfound, Resolver.after_append]
    | none =>
      have hany : (nestedForms i.className).any known = false := by
        simpa [List.any_eq_false] using List.find?_eq_none.mp hfound
      dsimp only
      rw [ih _ hkept]
      simp [importErrors, importTable, importProbes, hany, hfound, Resolver.after_append]

/-! ## The rule -/

namespace Script

variable (script : Script) (known : String → Bool)

/-- The candidates for a name in a script whose imports are resolved. -/
def candidates (name : String) : List String :=
  candidateNames name (importTable known script.imports) (script.starImports.map (·.package))

/-- The class that a name stands for: the first known candidate. -/
def classOf? (name : String) : Option String := (script.candidates known name).find? known

/-- The questions that the lookup of a name leads to. -/
def nameProbes (name : String) : List String := probed known (script.candidates known name)

/-- The class reference that takes the place of an expression, for expressions that are read as a
name that stands for a class. -/
def classRule (reading : Expr → Option String) (e : Expr) : Option Expr :=
  ((reading e).bind (script.classOf? known)).map fun binary ↦ .classRef binary e.span

/-- The parameters and the statements of each body: that of the script, and those of its methods. -/
def bodies : List (List String × List Stmt) :=
  ([], script.statements) :: script.methods.map fun m ↦ (m.parameters.map (·.name), m.body)

variable (reading : List String → Expr → Option String)

/-- A body with its class references. -/
def bodyWithClasses (parameters : List String) (body : List Stmt) : List Stmt :=
  Stmt.replaceAll (script.classRule known (reading (parameters ++ declaredNames body))) body

/-- The names that are looked up in a body, in order. -/
def bodyLookups (parameters : List String) (body : List Stmt) : List String :=
  let reading := reading (parameters ++ declaredNames body)
  (Stmt.reachedOfAll (script.classRule known reading) body).filterMap reading

/-- The script with its class references. -/
def withClasses : Script :=
  { script with
    statements := script.bodyWithClasses known reading [] script.statements
    methods := script.methods.map fun m ↦
      { m with body := script.bodyWithClasses known reading (m.parameters.map (·.name)) m.body } }

/-- The names that are looked up in a script, in order. -/
def lookups : List String :=
  script.bodies.flatMap fun (parameters, body) ↦ script.bodyLookups known reading parameters body

/-- All questions in order: those for the imports, and then, for each name when it is looked up for
the first time, those for its candidates. -/
def probes : List String :=
  importProbes known script.imports ++
    (script.lookups known reading).eraseDups.flatMap (script.nameProbes known)

end Script

/-! ## The scope -/

/-- The scope of a script's bodies once the names are looked up, if the imports left the resolver in
the state `start`. -/
structure Scope.Remembers (script : Script) (known : String → Bool) (r : Resolver σ) (start : σ)
    (names : List String) (s : Scope σ) : Prop where
  imports_eq : s.imports = importTable known script.imports
  starPackages_eq : s.starPackages = script.starImports.map (·.package)
  lookup_resolved : ∀ name,
    s.resolved.lookup name = if name ∈ names then some (script.classOf? known name) else none
  state_eq : s.state = r.after (names.eraseDups.flatMap (script.nameProbes known)) start

namespace Scope.Remembers

variable {script : Script} {start : σ} {names : List String} {s : Scope σ}

/-- A lookup answers by the rule. Only the first lookup of a name asks the resolver. -/
theorem resolve (hr : r.Knows P known) (hstart : P start)
    (h : s.Remembers script known r start names) (name : String) :
    (s.resolve r name).1 = script.classOf? known name ∧
      (s.resolve r name).2.Remembers script known r start (names ++ [name]) := by
  rw [Scope.resolve, h.lookup_resolved]
  by_cases hmem : name ∈ names
  · rw [if_pos hmem]
    refine ⟨rfl, h.imports_eq, h.starPackages_eq, fun other ↦ ?_, ?_⟩
    · rw [h.lookup_resolved]
      congr 1
      simp only [List.mem_append, List.mem_singleton, eq_iff_iff]
      exact ⟨.inl, fun h ↦ h.elim id fun heq ↦ heq ▸ hmem⟩
    · rw [eraseDups_concat_of_mem hmem]
      exact h.state_eq
  · have hstate : P s.state := h.state_eq ▸ hr.keeps_after _ hstart
    rw [if_neg hmem]
    dsimp only
    rw [hr.firstKnown?_eq _ hstate, h.imports_eq, h.starPackages_eq]
    refine ⟨rfl, rfl, rfl, fun other ↦ ?_, ?_⟩
    · rw [List.lookup_cons, h.lookup_resolved]
      by_cases heq : other = name
      · subst heq
        simp [Script.classOf?, Script.candidates]
      · simp [heq, beq_eq_false_iff_ne.mpr heq]
    · rw [eraseDups_concat_of_notMem hmem, List.flatMap_append, Resolver.after_append, ← h.state_eq,
        List.flatMap_singleton]
      rfl

end Scope.Remembers

/-- What the walk over a body does to the scope when it meets an expression. -/
def Scope.meet (r : Resolver σ) (reading : Expr → Option String) (s : Scope σ) (e : Expr) :
    Scope σ :=
  match reading e with
  | none => s
  | some name => (s.resolve r name).2

namespace Scope.Remembers

variable {script : Script} {start : σ} {names : List String} {s : Scope σ}

theorem meet (hr : r.Knows P known) (hstart : P start)
    (h : s.Remembers script known r start names) (reading : Expr → Option String) (e : Expr) :
    (s.meet r reading e).Remembers script known r start (names ++ (reading e).toList) := by
  rw [Scope.meet]
  cases reading e with
  | none => simpa using h
  | some name => exact (h.resolve hr hstart name).2

theorem foldl_meet (hr : r.Knows P known) (hstart : P start)
    (h : s.Remembers script known r start names) (reading : Expr → Option String)
    (es : List Expr) :
    (es.foldl (Scope.meet r reading) s).Remembers script known r start
      (names ++ es.filterMap reading) := by
  induction es generalizing names s with
  | nil => simpa using h
  | cons e es ih =>
    have hmet := ih (h.meet hr hstart reading e)
    cases he : reading e with
    | none => simpa [he] using hmet
    | some name => simpa [he] using hmet

end Scope.Remembers

/-! ## Resolution follows the rule -/

section

variable {script : Script} {start : σ} {names : List String} {s : Scope σ}

/-- The rewriter of a body follows the rule as long as the scope remembers right answers. -/
theorem Rewriter.follows_resolving (script : Script) (hr : r.Knows P known) (hstart : P start)
    (isLocal : String → Bool) :
    (Rewriter.resolving r isLocal).Follows
      (fun s ↦ ∃ names, s.Remembers script known r start names)
      (script.classRule known (·.classCandidate? isLocal))
      (Scope.meet r (·.classCandidate? isLocal)) where
  stmt _ _ := rfl
  expr := by
    rintro e s ⟨names, hs⟩
    rw [resolving, Script.classRule, Scope.meet]
    dsimp only
    cases e.classCandidate? isLocal with
    | none => rfl
    | some name =>
      dsimp only
      rw [(hs.resolve hr hstart name).1]
      rfl
  keeps := by
    rintro e s ⟨names, hs⟩
    exact ⟨_, hs.meet hr hstart _ e⟩

/-- The reading of expressions that resolution tries. -/
def Expr.candidateIn (locals : List String) (e : Expr) : Option String :=
  e.classCandidate? locals.contains

theorem resolveBody_eq (hr : r.Knows P known) (hstart : P start)
    (h : s.Remembers script known r start names) (parameters : List String) (body : List Stmt) :
    (resolveBody r parameters body s).1 =
        script.bodyWithClasses known Expr.candidateIn parameters body ∧
      (resolveBody r parameters body s).2.Remembers script known r start
        (names ++ script.bodyLookups known Expr.candidateIn parameters body) := by
  have hfollows := Rewriter.follows_resolving script hr hstart
    (parameters ++ declaredNames body).contains
  rw [resolveBody, hfollows.stmt_rewriteAll body [] s ⟨names, h⟩]
  exact ⟨rfl, h.foldl_meet hr hstart _ _⟩

theorem resolveMethods_eq (hr : r.Knows P known) (hstart : P start)
    (h : s.Remembers script known r start names) (done methods : List Method) :
    (resolveMethods r done methods s).1 = done.reverse ++ methods.map (fun m ↦
        { m with body :=
          script.bodyWithClasses known Expr.candidateIn (m.parameters.map (·.name)) m.body }) ∧
      (resolveMethods r done methods s).2.Remembers script known r start (names ++
        methods.flatMap fun m ↦
          script.bodyLookups known Expr.candidateIn (m.parameters.map (·.name)) m.body) := by
  induction methods generalizing done names s with
  | nil => simpa [resolveMethods] using h
  | cons m methods ih =>
    obtain ⟨hbody, hscope⟩ := resolveBody_eq hr hstart h (m.parameters.map (·.name)) m.body
    obtain ⟨hmethods, hrest⟩ := ih hscope
      ({ m with body := (resolveBody r (m.parameters.map (·.name)) m.body s).1 } :: done)
    rw [resolveMethods]
    dsimp only
    rw [hmethods]
    refine ⟨by simp [hbody], ?_⟩
    simpa using hrest

end

/-- For a resolver with a fixed set of names, resolution is the rule: errors for the imports without
a class, class references by the first known candidate, and one question for each candidate tried,
each name being looked up once. -/
theorem Script.resolve_eq (hr : r.Knows P known) {s : σ} (hs : P s) (script : Script) :
    script.resolve r s =
      (importErrors known script.imports, script.withClasses known Expr.candidateIn,
        r.after (script.probes known Expr.candidateIn) s) := by
  have hstart : P (r.after (importProbes known script.imports) s) := hr.keeps_after _ hs
  rw [resolve]
  dsimp only
  rw [Scope.addImports_eq hr script.imports [] hs]
  dsimp only
  have hscope : Scope.Remembers script known r (r.after (importProbes known script.imports) s) []
      { imports := importTable known script.imports ++ [],
        starPackages := script.starImports.map (·.package),
        state := r.after (importProbes known script.imports) s } := {
    imports_eq := List.append_nil _
    starPackages_eq := rfl
    lookup_resolved := fun _ ↦ rfl
    state_eq := rfl }
  obtain ⟨hstatements, hbody⟩ := resolveBody_eq hr hstart hscope [] script.statements
  obtain ⟨hmethods, hend⟩ := resolveMethods_eq hr hstart hbody [] script.methods
  rw [hstatements, hmethods, hend.state_eq]
  simp [withClasses, probes, lookups, bodies, List.flatMap_map, Resolver.after_append]

end BuildScript
