import BuildScript.Compile.Lookup
import BuildScript.Proofs.Loading.Searches

/-!
# What resolution keeps

Resolution threads the state of a resolver through a walk over the script, and changes it by asking
for names only. So what every question keeps is kept by the resolution of a whole script; and the
lookup that compilations use keeps what loading classes keeps.
-/

namespace BuildScript

variable {σ : Type} {P : σ → Prop}

/-! ## Walks -/

/-- No node that the rewriter sees breaks the property of its state. -/
structure Rewriter.Keeps (r : Rewriter σ) (P : σ → Prop) : Prop where
  stmt : ∀ stmt s, P s → P (r.stmt stmt s)
  expr : ∀ e s, P s → P (r.expr e s).2

namespace Rewriter.Keeps

variable {r : Rewriter σ}

mutual

theorem expr_rewrite (h : r.Keeps P) : ∀ (e : Expr) (s : σ), P s → P (e.rewrite r s).2 := by
  intro e s hs
  have hself := h.expr e s hs
  rw [Expr.rewrite]
  split
  next heq => rwa [heq] at hself
  next s' heq =>
    rw [heq] at hself
    cases e with
    | constant | var | classRef => exact hself
    | property object => exact expr_rewrite h object _ hself
    | call name arguments => exact expr_rewriteAll h arguments _ _ hself
    | invoke receiver name arguments =>
      exact expr_rewriteAll h arguments _ _ (expr_rewrite h receiver _ hself)
    | binary op left right => exact expr_rewrite h right _ (expr_rewrite h left _ hself)
    | unary op operand => exact expr_rewrite h operand _ hself
    | assign target value => exact expr_rewrite h value _ hself
    | list elements => exact expr_rewriteAll h elements _ _ hself

theorem expr_rewriteAll (h : r.Keeps P) :
    ∀ (es done : List Expr) (s : σ), P s → P (Expr.rewriteAll r done es s).2
  | [], _, _, hs => hs
  | e :: es, _, s, hs => expr_rewriteAll h es _ _ (expr_rewrite h e s hs)

end

mutual

theorem stmt_rewrite (h : r.Keeps P) : ∀ (stmt : Stmt) (s : σ), P s → P (stmt.rewrite r s).2 := by
  intro stmt s hs
  have hself := h.stmt stmt s hs
  cases stmt with
  | expression e => exact h.expr_rewrite e _ hself
  | declare name initial =>
    cases initial with
    | none => exact hself
    | some e => exact h.expr_rewrite e _ hself
  | result value =>
    cases value with
    | none => exact hself
    | some e => exact h.expr_rewrite e _ hself
  | ifThen condition body => exact stmt_rewrite h body _ (h.expr_rewrite condition _ hself)
  | ifElse condition body alternative =>
    exact stmt_rewrite h alternative _ (stmt_rewrite h body _ (h.expr_rewrite condition _ hself))
  | loop condition body => exact stmt_rewrite h body _ (h.expr_rewrite condition _ hself)
  | block body => exact stmt_rewriteAll h body _ _ hself

theorem stmt_rewriteAll (h : r.Keeps P) :
    ∀ (stmts done : List Stmt) (s : σ), P s → P (Stmt.rewriteAll r done stmts s).2
  | [], _, _, hs => hs
  | stmt :: stmts, _, s, hs => stmt_rewriteAll h stmts _ _ (stmt_rewrite h stmt s hs)

end

end Rewriter.Keeps

/-! ## Resolution -/

namespace Resolver.Keeps

variable {r : Resolver σ}

theorem firstKnown (h : r.Keeps P) (names : List String) {s : σ} (hs : P s) :
    P (r.firstKnown? names s).2 := by
  induction names generalizing s with
  | nil => exact hs
  | cons name names ih =>
    rw [Resolver.firstKnown?]
    dsimp only
    split
    · exact h name s hs
    · exact ih (h name s hs)

theorem scope_resolve (h : r.Keeps P) (name : String) {s : Scope σ} (hs : P s.state) :
    P (s.resolve r name).2.state := by
  rw [Scope.resolve]
  split
  · exact hs
  · exact h.firstKnown _ hs

theorem addImport (h : r.Keeps P) (i : Import) {s : Scope σ} (hs : P s.state) :
    P (s.addImport r i).2.state := by
  have hfirst := h.firstKnown (nestedForms i.className) hs
  rw [Scope.addImport]
  dsimp only
  split
  · exact hfirst
  · exact hfirst

theorem addImports (h : r.Keeps P) (errors : List SourceError) (imports : List Import)
    {s : Scope σ} (hs : P s.state) : P (s.addImports r errors imports).2.state := by
  induction imports generalizing errors s with
  | nil => exact hs
  | cons i imports ih => exact ih _ (h.addImport i hs)

theorem resolving (h : r.Keeps P) (isLocal : String → Bool) :
    (Rewriter.resolving r isLocal).Keeps fun s ↦ P s.state where
  stmt _ _ hs := hs
  expr e s hs := by
    rw [Rewriter.resolving]
    dsimp only
    split
    · exact hs
    · exact h.scope_resolve _ hs

theorem resolveBody (h : r.Keeps P) (parameters : List String) (body : List Stmt) {s : Scope σ}
    (hs : P s.state) : P (BuildScript.resolveBody r parameters body s).2.state :=
  (h.resolving _).stmt_rewriteAll body [] s hs

theorem resolveMethods (h : r.Keeps P) (done methods : List Method) {s : Scope σ}
    (hs : P s.state) : P (BuildScript.resolveMethods r done methods s).2.state := by
  induction methods generalizing done s with
  | nil => exact hs
  | cons m methods ih => exact ih _ (h.resolveBody _ _ hs)

/-- What every question keeps, the resolution of a script keeps. -/
theorem script_resolve (h : r.Keeps P) (script : Script) {s : σ} (hs : P s) :
    P (script.resolve r s).2.2 :=
  h.resolveMethods [] _ (h.resolveBody [] _ (h.addImports [] _ hs))

end Resolver.Keeps

/-! ## The lookup -/

namespace ClassLookup

variable {P : World → Prop}

theorem world_search (l : ClassLookup) (name : String) (w : World) :
    (l.search name w).2 = (w.load l.loader name).2 := by
  rw [search]
  split
  all_goals
    next heq => rw [heq]

/-- Looking names up loads classes and does nothing else to the world. -/
theorem keeps_resolver (hload : World.KeptByLoading P) : resolver.Keeps fun s ↦ P s.2 := by
  intro name s hs
  rw [resolver]
  dsimp only
  rw [find]
  split
  · exact hs
  · dsimp only
    rw [world_search]
    exact hload s.1.loader name s.2 hs

theorem keeps (hload : World.KeptByLoading P) : resolver.prefiltered.Keeps fun s ↦ P s.2 := by
  intro name s hs
  rw [Resolver.prefiltered]
  dsimp only
  split
  · exact hs
  · exact keeps_resolver hload name s hs

end ClassLookup

end BuildScript
