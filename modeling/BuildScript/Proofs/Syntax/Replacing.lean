import BuildScript.Syntax.Walk

/-!
# Replacing expressions

A rewriter carries a state through its walk, and what it puts in the place of an expression may
depend on that state. Many rewriters keep their state such that it does not: `Rewriter.Follows` says
that the answers are those of a fixed rule. For them a walk is two things at once that can be told
without it: the tree with the rule applied from the top down, `replace`, and the steps of the state
over the expressions that the rule meets, `reached`.
-/

namespace BuildScript

/-! ## Replacing by a rule -/

section Replacing

variable (f : Expr → Option Expr)

mutual

/-- The expression with the outermost of its subexpressions that the rule replaces replaced. -/
def Expr.replace (e : Expr) : Expr :=
  match f e with
  | some e' => e'
  | none =>
    match e with
    | .constant _ _ | .var _ _ | .classRef _ _ => e
    | .property object name span => .property object.replace name span
    | .call name arguments span => .call name (Expr.replaceAll arguments) span
    | .invoke receiver name arguments span =>
      .invoke receiver.replace name (Expr.replaceAll arguments) span
    | .binary op left right span => .binary op left.replace right.replace span
    | .unary op operand span => .unary op operand.replace span
    | .assign target value span => .assign target value.replace span
    | .list elements span => .list (Expr.replaceAll elements) span

def Expr.replaceAll : List Expr → List Expr
  | [] => []
  | e :: es => e.replace :: Expr.replaceAll es

end

mutual

/-- The expressions that the rule is tried on, in order: first the whole and, unless it is replaced,
those in its children. -/
def Expr.reached (e : Expr) : List Expr :=
  e ::
    match f e with
    | some _ => []
    | none =>
      match e with
      | .constant _ _ | .var _ _ | .classRef _ _ => []
      | .property object _ _ => object.reached
      | .call _ arguments _ => Expr.reachedOfAll arguments
      | .invoke receiver _ arguments _ => receiver.reached ++ Expr.reachedOfAll arguments
      | .binary _ left right _ => left.reached ++ right.reached
      | .unary _ operand _ => operand.reached
      | .assign _ value _ => value.reached
      | .list elements _ => Expr.reachedOfAll elements

def Expr.reachedOfAll : List Expr → List Expr
  | [] => []
  | e :: es => e.reached ++ Expr.reachedOfAll es

end

mutual

/-- The statement with the rule applied to its expressions. -/
def Stmt.replace : Stmt → Stmt
  | .expression e => .expression (e.replace f)
  | .declare name initial span => .declare name (initial.map (·.replace f)) span
  | .result value span => .result (value.map (·.replace f)) span
  | .ifThen condition body span => .ifThen (condition.replace f) body.replace span
  | .ifElse condition body alternative span =>
    .ifElse (condition.replace f) body.replace alternative.replace span
  | .loop condition body span => .loop (condition.replace f) body.replace span
  | .block body span => .block (Stmt.replaceAll body) span

def Stmt.replaceAll : List Stmt → List Stmt
  | [] => []
  | s :: ss => s.replace :: Stmt.replaceAll ss

end

mutual

/-- The expressions of a statement that the rule is tried on, in order. -/
def Stmt.reached : Stmt → List Expr
  | .expression e => e.reached f
  | .declare _ none _ | .result none _ => []
  | .declare _ (some e) _ | .result (some e) _ => e.reached f
  | .ifThen condition body _ | .loop condition body _ => condition.reached f ++ body.reached
  | .ifElse condition body alternative _ =>
    condition.reached f ++ (body.reached ++ alternative.reached)
  | .block body _ => Stmt.reachedOfAll body

def Stmt.reachedOfAll : List Stmt → List Expr
  | [] => []
  | s :: ss => s.reached ++ Stmt.reachedOfAll ss

end

end Replacing

/-! ## Walks that follow a rule -/

/-- On states with the property `P`, which its steps keep, the rewriter answers by the rule `f`. -/
structure Rewriter.Follows {σ : Type} (r : Rewriter σ) (P : σ → Prop) (f : Expr → Option Expr)
    (step : σ → Expr → σ) : Prop where
  stmt : ∀ stmt s, r.stmt stmt s = s
  expr : ∀ e s, P s → r.expr e s = (f e, step s e)
  keeps : ∀ e s, P s → P (step s e)

namespace Rewriter.Follows

variable {σ : Type} {r : Rewriter σ} {P : σ → Prop} {f : Expr → Option Expr} {step : σ → Expr → σ}

theorem keeps_foldl (h : r.Follows P f step) (es : List Expr) {s : σ} (hs : P s) :
    P (es.foldl step s) := by
  induction es generalizing s with
  | nil => exact hs
  | cons e es ih => exact ih (h.keeps e s hs)

mutual

theorem expr_rewrite (h : r.Follows P f step) :
    ∀ (e : Expr) (s : σ), P s → e.rewrite r s = (e.replace f, (e.reached f).foldl step s) := by
  intro e s hs
  have hself := h.keeps e s hs
  rw [Expr.rewrite, h.expr e s hs, Expr.replace.eq_def, Expr.reached.eq_def, List.foldl_cons]
  cases f e with
  | some e' => rfl
  | none =>
    cases e with
    | constant | var | classRef => rfl
    | property object name span => simp only [expr_rewrite h object _ hself]
    | call name arguments span =>
      simp only [expr_rewriteAll h arguments [] _ hself, List.reverse_nil, List.nil_append]
    | invoke receiver name arguments span =>
      simp only [expr_rewrite h receiver _ hself, List.foldl_append, List.reverse_nil,
        expr_rewriteAll h arguments [] _ (h.keeps_foldl _ hself), List.nil_append]
    | binary op left right span =>
      simp only [expr_rewrite h left _ hself, List.foldl_append,
        expr_rewrite h right _ (h.keeps_foldl _ hself)]
    | unary op operand span => simp only [expr_rewrite h operand _ hself]
    | assign target value span => simp only [expr_rewrite h value _ hself]
    | list elements span =>
      simp only [expr_rewriteAll h elements [] _ hself, List.reverse_nil, List.nil_append]

theorem expr_rewriteAll (h : r.Follows P f step) :
    ∀ (es done : List Expr) (s : σ), P s → Expr.rewriteAll r done es s =
      (done.reverse ++ Expr.replaceAll f es, (Expr.reachedOfAll f es).foldl step s)
  | [], done, s, _ => by
    rw [Expr.rewriteAll, Expr.replaceAll, Expr.reachedOfAll, List.append_nil, List.foldl_nil]
  | e :: es, done, s, hs => by
    rw [Expr.rewriteAll, expr_rewrite h e s hs]
    dsimp only
    rw [expr_rewriteAll h es _ _ (h.keeps_foldl _ hs), Expr.replaceAll, Expr.reachedOfAll,
      List.foldl_append, List.reverse_cons, List.append_assoc, List.singleton_append]

end

mutual

theorem stmt_rewrite (h : r.Follows P f step) :
    ∀ (stmt : Stmt) (s : σ), P s →
      stmt.rewrite r s = (stmt.replace f, (stmt.reached f).foldl step s) := by
  intro stmt s hs
  rw [Stmt.rewrite.eq_def, h.stmt]
  cases stmt with
  | expression e => simp only [h.expr_rewrite e s hs, Stmt.replace, Stmt.reached]
  | declare name initial span =>
    cases initial with
    | none => rfl
    | some e => simp only [h.expr_rewrite e s hs, Stmt.replace, Stmt.reached, Option.map_some]
  | result value span =>
    cases value with
    | none => rfl
    | some e => simp only [h.expr_rewrite e s hs, Stmt.replace, Stmt.reached, Option.map_some]
  | ifThen condition body span | loop condition body span =>
    simp only [h.expr_rewrite condition s hs, stmt_rewrite h body _ (h.keeps_foldl _ hs),
      Stmt.replace, Stmt.reached, List.foldl_append]
  | ifElse condition body alternative span =>
    have hcondition := h.keeps_foldl (condition.reached f) hs
    simp only [h.expr_rewrite condition s hs, stmt_rewrite h body _ hcondition,
      stmt_rewrite h alternative _ (h.keeps_foldl _ hcondition), Stmt.replace, Stmt.reached,
      List.foldl_append]
  | block body span =>
    simp only [stmt_rewriteAll h body [] s hs, List.reverse_nil, List.nil_append, Stmt.replace,
      Stmt.reached]

theorem stmt_rewriteAll (h : r.Follows P f step) :
    ∀ (stmts done : List Stmt) (s : σ), P s → Stmt.rewriteAll r done stmts s =
      (done.reverse ++ Stmt.replaceAll f stmts, (Stmt.reachedOfAll f stmts).foldl step s)
  | [], done, s, _ => by
    rw [Stmt.rewriteAll, Stmt.replaceAll, Stmt.reachedOfAll, List.append_nil, List.foldl_nil]
  | stmt :: stmts, done, s, hs => by
    rw [Stmt.rewriteAll, stmt_rewrite h stmt s hs]
    dsimp only
    rw [stmt_rewriteAll h stmts _ _ (h.keeps_foldl _ hs), Stmt.replaceAll, Stmt.reachedOfAll,
      List.foldl_append, List.reverse_cons, List.append_assoc, List.singleton_append]

end

end Rewriter.Follows

/-! ## Rules that agree -/

section Agreement

variable {f g : Expr → Option Expr}

mutual

/-- Rules that agree on all expressions that one of them is tried on have the same effect. -/
theorem Expr.replace_congr : ∀ e : Expr, (∀ part ∈ e.reached f, f part = g part) →
    e.replace f = e.replace g ∧ e.reached f = e.reached g := by
  intro e h
  rw [Expr.reached.eq_def, List.forall_mem_cons] at h
  obtain ⟨hself, hparts⟩ := h
  rw [Expr.replace.eq_def, Expr.replace.eq_def g, Expr.reached.eq_def, Expr.reached.eq_def g, ← hself]
  cases hfe : f e with
  | some e' => exact ⟨rfl, rfl⟩
  | none =>
    rw [hfe] at hparts
    cases e with
    | constant | var | classRef => exact ⟨rfl, rfl⟩
    | property object | unary _ object | assign _ object =>
      simp only [object.replace_congr hparts, and_self]
    | call _ elements | list elements =>
      simp only [Expr.replaceAll_congr elements hparts, and_self]
    | invoke receiver _ arguments =>
      obtain ⟨hreceiver, harguments⟩ := List.forall_mem_append.mp hparts
      simp only [receiver.replace_congr hreceiver, Expr.replaceAll_congr arguments harguments,
        and_self]
    | binary _ left right =>
      obtain ⟨hleft, hright⟩ := List.forall_mem_append.mp hparts
      simp only [left.replace_congr hleft, right.replace_congr hright, and_self]

theorem Expr.replaceAll_congr : ∀ es : List Expr,
    (∀ part ∈ Expr.reachedOfAll f es, f part = g part) →
      Expr.replaceAll f es = Expr.replaceAll g es ∧ Expr.reachedOfAll f es = Expr.reachedOfAll g es
  | [], _ => ⟨rfl, rfl⟩
  | e :: es, h => by
    obtain ⟨hhead, htail⟩ := List.forall_mem_append.mp h
    simp only [Expr.replaceAll, Expr.reachedOfAll, e.replace_congr hhead,
      Expr.replaceAll_congr es htail, and_self]

end

mutual

theorem Stmt.replace_congr : ∀ s : Stmt, (∀ part ∈ s.reached f, f part = g part) →
    s.replace f = s.replace g ∧ s.reached f = s.reached g := by
  intro s h
  cases s with
  | expression e => simp only [Stmt.replace, Stmt.reached, e.replace_congr h, and_self]
  | declare _ value | result value =>
    cases value with
    | none => exact ⟨rfl, rfl⟩
    | some e =>
      simp only [Stmt.replace, Stmt.reached, Option.map_some, e.replace_congr h, and_self]
  | ifThen condition body | loop condition body =>
    obtain ⟨hcondition, hbody⟩ := List.forall_mem_append.mp h
    simp only [Stmt.replace, Stmt.reached, condition.replace_congr hcondition,
      body.replace_congr hbody, and_self]
  | ifElse condition body alternative =>
    obtain ⟨hcondition, hrest⟩ := List.forall_mem_append.mp h
    obtain ⟨hbody, halternative⟩ := List.forall_mem_append.mp hrest
    simp only [Stmt.replace, Stmt.reached, condition.replace_congr hcondition,
      body.replace_congr hbody, alternative.replace_congr halternative, and_self]
  | block body =>
    simp only [Stmt.replace, Stmt.reached, Stmt.replaceAll_congr body h, and_self]

theorem Stmt.replaceAll_congr : ∀ ss : List Stmt,
    (∀ part ∈ Stmt.reachedOfAll f ss, f part = g part) →
      Stmt.replaceAll f ss = Stmt.replaceAll g ss ∧ Stmt.reachedOfAll f ss = Stmt.reachedOfAll g ss
  | [], _ => ⟨rfl, rfl⟩
  | s :: ss, h => by
    obtain ⟨hhead, htail⟩ := List.forall_mem_append.mp h
    simp only [Stmt.replaceAll, Stmt.reachedOfAll, s.replace_congr hhead,
      Stmt.replaceAll_congr ss htail, and_self]

end

end Agreement

/-! ## What replacing keeps -/

section Kept

variable {f : Expr → Option Expr}

mutual

theorem Stmt.collectDeclared_replace : ∀ (s : Stmt) (names : Array String),
    (s.replace f).collectDeclared names = s.collectDeclared names := by
  intro s names
  cases s with
  | expression | declare | result => rfl
  | ifThen _ body | loop _ body =>
    simp only [Stmt.replace, Stmt.collectDeclared, body.collectDeclared_replace]
  | ifElse _ body alternative =>
    simp only [Stmt.replace, Stmt.collectDeclared, body.collectDeclared_replace,
      alternative.collectDeclared_replace]
  | block body =>
    simp only [Stmt.replace, Stmt.collectDeclared, Stmt.collectAllDeclared_replaceAll body]

theorem Stmt.collectAllDeclared_replaceAll : ∀ (ss : List Stmt) (names : Array String),
    Stmt.collectAllDeclared names (Stmt.replaceAll f ss) = Stmt.collectAllDeclared names ss
  | [], _ => rfl
  | s :: ss, names => by
    simp only [Stmt.replaceAll, Stmt.collectAllDeclared, s.collectDeclared_replace,
      Stmt.collectAllDeclared_replaceAll ss]

end

/-- A body declares the same names when its expressions are replaced. -/
theorem declaredNames_replaceAll (body : List Stmt) :
    declaredNames (Stmt.replaceAll f body) = declaredNames body := by
  rw [declaredNames, Stmt.collectAllDeclared_replaceAll, declaredNames]

end Kept

end BuildScript
