import BuildScript.Proofs.Syntax.Joining
import BuildScript.Proofs.Syntax.ReadExpressions

/-!
# Expressions with fewer newlines

An expression that is read from the tokens is read from them without the newlines too. It ends in
front of a newline as it ends in front of the word behind it, for neither of the two goes on with an
expression and neither begins one.
-/

namespace BuildScript

namespace Expr

variable {e e₁ e₂ e' e₁' e₂' : Expr} {es es' : List Expr} {name : String} {span span' : Span}

/-! ## Expressions that are the same but for their places -/

theorem AllSame.cons (h : e.Same e') (hs : AllSame es es') : AllSame (e :: es) (e' :: es') := by
  rw [AllSame, eraseAllSpans, eraseAllSpans, h, hs]

theorem AllSame.reverse (h : AllSame es es') : AllSame es.reverse es'.reverse := by
  rw [AllSame, eraseAllSpans_eq_map, eraseAllSpans_eq_map] at h ⊢
  rw [List.map_reverse, List.map_reverse, h]

namespace Same

theorem property (h : e.Same e') : (Expr.property e name span).Same (.property e' name span') :=
  congrArg (Expr.property · name .none) h

theorem call (h : AllSame es es') : (Expr.call name es span).Same (.call name es' span') :=
  congrArg (Expr.call name · .none) h

theorem invoke (h : e.Same e') (hs : AllSame es es') :
    (Expr.invoke e name es span).Same (.invoke e' name es' span') := by
  rw [Same, eraseSpans, eraseSpans, h, hs]

theorem binary {op : BinaryOp} (h₁ : e₁.Same e₁') (h₂ : e₂.Same e₂') :
    (Expr.binary op e₁ e₂ span).Same (.binary op e₁' e₂' span') := by
  rw [Same, eraseSpans, eraseSpans, h₁, h₂]

theorem unary {op : UnaryOp} (h : e.Same e') : (Expr.unary op e span).Same (.unary op e' span') :=
  congrArg (Expr.unary op · .none) h

theorem assign (h : e.Same e') : (Expr.assign name e span).Same (.assign name e' span') :=
  congrArg (Expr.assign name · .none) h

theorem list (h : AllSame es es') : (Expr.list es span).Same (.list es' span') :=
  congrArg (Expr.list · .none) h

theorem exists_var (h : (Expr.var name span).Same e) : ∃ span', e = .var name span' := by
  cases e <;> simp [Same, eraseSpans] at h
  exact ⟨_, by rw [h]⟩

theorem exists_property (h : (Expr.property e name span).Same e') :
    ∃ o span', e' = .property o name span' ∧ e.Same o := by
  cases e' <;> simp [Same, eraseSpans] at h
  exact ⟨_, _, by rw [h.2], h.1⟩

end Same

end Expr

namespace Grammar

open BuildScript.Expr

/-! ## Reading them -/

/-- Elements that were read up to a closing symbol. -/
def SameElements (p p' : List Expr × Span) : Prop := AllSame p.1 p'.1

/-- The functions for expressions, where those of the first run have the bound `n`, and those of the
second one a bound that is enough for the tokens left to it. -/
structure ExpressionsMirror (n : Nat) : Prop where
  expression : ∀ {m ℓ}, 8 * ℓ + 4 ≤ m → Consumes ℓ (expression n) (expression m) Same
  operation : ∀ {m ℓ} level, 8 * ℓ + 3 ≤ m →
    Consumes ℓ (operation n level) (operation m level) Same
  operationTail : ∀ {m ℓ} level {left left' : Expr}, left.Same left' → 8 * ℓ + 1 ≤ m →
    Keeps ℓ (operationTail n level left) (operationTail m level left') Same
  signed : ∀ {m ℓ}, 8 * ℓ + 2 ≤ m → Consumes ℓ (signed n) (signed m) Same
  memberTail : ∀ {m ℓ} {object object' : Expr}, object.Same object' → 8 * ℓ + 1 ≤ m →
    Keeps ℓ (memberTail n object) (memberTail m object') Same
  primary : ∀ {m ℓ}, 8 * ℓ + 1 ≤ m → Consumes ℓ (primary n) (primary m) Same
  arguments : ∀ {m ℓ}, 8 * ℓ + 1 ≤ m →
    Consumes ℓ (arguments n) (arguments m) SameElements
  elements : ∀ {m ℓ} close {done done' : List Expr}, AllSame done done' → 8 * ℓ + 5 ≤ m →
    Consumes ℓ (elements n close done) (elements m close done') SameElements

theorem expressionsMirror_zero : ExpressionsMirror 0 where
  expression _ := by rw [Consumes, expression]; exact .tooDeep
  operation _ _ := by rw [Consumes, operation]; exact .tooDeep
  operationTail _ _ _ _ _ := by rw [Keeps, operationTail]; exact .tooDeep
  signed _ := by rw [Consumes, signed]; exact .tooDeep
  memberTail _ _ := by rw [Keeps, memberTail]; exact .tooDeep
  primary _ := by rw [Consumes, primary]; exact .tooDeep
  arguments _ := by rw [Consumes, arguments]; exact .tooDeep
  elements _ _ _ _ _ := by rw [Consumes, elements]; exact .tooDeep

namespace ExpressionsMirror

variable {n m ℓ : Nat}

theorem expression_succ (h : ExpressionsMirror n) (hm : 8 * ℓ + 4 ≤ m) :
    Consumes ℓ (Grammar.expression (n + 1)) (Grammar.expression m) Same := by
  obtain ⟨m, rfl⟩ := exists_eq_succ_of_enough hm
  rw [Grammar.expression, Grammar.expression]
  refine (h.operation 0 (by omega)).bind ?_
  rintro target target' ⟨htarget, hpos⟩
  refine mirrors_currentIs (plain_symbol _) (fun t t' _ ↦ ?_) (.pure ⟨htarget, hpos⟩ fun _ _ ↦ id)
  refine mirrors_advance.bind fun _ _ _ ↦ keeps_skipNewlines.bind fun _ _ _ ↦ ?_
  split
  next name span =>
    obtain ⟨span', rfl⟩ := htarget.exists_var
    refine (h.expression (by omega)).bind ?_
    rintro value value' ⟨hvalue, -⟩
    exact .pure_le ⟨hvalue.assign, hpos⟩ (by omega)
  next => exact .fail

theorem operation_succ (h : ExpressionsMirror n) (level : Nat) (hm : 8 * ℓ + 3 ≤ m) :
    Consumes ℓ (Grammar.operation (n + 1) level) (Grammar.operation m level) Same := by
  obtain ⟨m, rfl⟩ := exists_eq_succ_of_enough hm
  rw [Grammar.operation, Grammar.operation]
  refine (h.signed (by omega)).bind ?_
  rintro left left' ⟨hleft, hpos⟩
  exact (h.operationTail level hleft (by omega)).imp (fun _ _ hop ↦ ⟨hop, hpos⟩)
    (Nat.le_refl _)

theorem operationTail_succ (h : ExpressionsMirror n) (level : Nat) {left left' : Expr}
    (hleft : left.Same left') (hm : 8 * ℓ + 1 ≤ m) :
    Keeps ℓ (Grammar.operationTail (n + 1) level left)
      (Grammar.operationTail m level left') Same := by
  obtain ⟨m, rfl⟩ := exists_eq_succ_of_enough hm
  rw [Grammar.operationTail, Grammar.operationTail]
  refine mirrors_current (fun t t' heq hpos ↦ ?_) fun t t' ht ht' ↦ ?_
  · rw [heq]
    cases hop : operator? t.token with
    | none => exact .pure hleft fun _ _ hts ↦ hts.near
    | some op =>
      have hpos : 0 < ℓ := hpos fun heof ↦ by
        rw [heof] at hop
        cases hop
      refine .ite (fun _ ↦ .pure hleft fun _ _ hts ↦ hts.near) fun _ ↦ ?_
      refine mirrors_advance.bind fun _ _ _ ↦ keeps_skipNewlines.bind fun _ _ _ ↦ ?_
      refine (h.operation _ (by omega)).bind ?_
      rintro right right' ⟨hright, -⟩
      exact (h.operationTail level (hleft.binary hright) (by omega)).leaving (by omega)
  · rw [ht, ht']
    exact .pure hleft fun _ _ ↦ id

theorem signed_succ (h : ExpressionsMirror n) (hm : 8 * ℓ + 2 ≤ m) :
    Consumes ℓ (Grammar.signed (n + 1)) (Grammar.signed m) Same := by
  obtain ⟨m, rfl⟩ := exists_eq_succ_of_enough hm
  have hoperand : Consumes ℓ (do Grammar.memberTail n (← Grammar.primary n))
      (do Grammar.memberTail m (← Grammar.primary m)) Same := by
    refine (h.primary (by omega)).bind ?_
    rintro e e' ⟨he, hpos⟩
    exact (h.memberTail he (by omega)).imp (fun _ _ he ↦ ⟨he, hpos⟩) (Nat.le_refl _)
  rw [Grammar.signed, Grammar.signed]
  refine mirrors_current (fun t t' heq hpos ↦ ?_) fun t t' ht ht' ↦ ?_
  · rw [heq]
    cases hop : signOperator? t.token with
    | none => exact hoperand.ahead
    | some op =>
      have hpos : 0 < ℓ := hpos fun heof ↦ by
        rw [heof] at hop
        cases hop
      refine mirrors_advance.bind fun _ _ _ ↦ (h.signed (by omega)).bind ?_
      rintro operand operand' ⟨hoperand, -⟩
      exact .pure_le ⟨hoperand.unary, hpos⟩ (by omega)
  · rw [ht, ht']
    exact hoperand

theorem memberTail_succ (h : ExpressionsMirror n) {object object' : Expr}
    (hobject : object.Same object') (hm : 8 * ℓ + 1 ≤ m) :
    Keeps ℓ (Grammar.memberTail (n + 1) object) (Grammar.memberTail m object') Same := by
  obtain ⟨m, rfl⟩ := exists_eq_succ_of_enough hm
  rw [Grammar.memberTail, Grammar.memberTail]
  refine mirrors_accept_bind (plain_symbol _) (fun hpos ↦ ?_) (.pure hobject fun _ _ ↦ id)
  refine keeps_skipNewlines.bind fun _ _ _ ↦ consumes_identifier.bind ?_
  rintro member member' ⟨hmember, -⟩
  rw [hmember]
  refine mirrors_nextIs_bind (plain_symbol _) (fun _ ↦ ?_) ?_
  · refine (h.arguments (by omega)).bind ?_
    rintro ⟨es, stop⟩ ⟨es', stop'⟩ ⟨hes, -⟩
    exact (h.memberTail (hobject.invoke hes) (by omega)).leaving (by omega)
  · exact (h.memberTail hobject.property (by omega)).leaving (by omega)

theorem primary_succ (h : ExpressionsMirror n) (hm : 8 * ℓ + 1 ≤ m) :
    Consumes ℓ (Grammar.primary (n + 1)) (Grammar.primary m) Same := by
  obtain ⟨m, rfl⟩ := exists_eq_succ_of_enough hm
  rw [Grammar.primary, Grammar.primary]
  refine mirrors_current (fun t t' heq hpos ↦ ?_) fun t t' ht ht' ↦ ?_
  · rw [heq]
    cases hliteral : literal? t.token with
    | some value =>
      have hpos : 0 < ℓ := hpos fun heof ↦ by
        rw [heof] at hliteral
        cases hliteral
      exact mirrors_advance.bind fun _ _ _ ↦ .pure ⟨rfl, hpos⟩ fun _ _ ↦ id
    | none =>
      dsimp only
      split
      next name htoken =>
        have hpos : 0 < ℓ := hpos fun heof ↦ by cases htoken.symm.trans heof
        refine mirrors_advance.bind fun _ _ _ ↦ mirrors_nextIs_bind (plain_symbol _) (fun _ ↦ ?_) ?_
        · refine (h.arguments (by omega)).bind ?_
          rintro ⟨es, stop⟩ ⟨es', stop'⟩ ⟨hes, -⟩
          exact .pure_le ⟨.call hes, hpos⟩ (by omega)
        · exact .pure ⟨rfl, hpos⟩ fun _ _ ↦ id
      next htoken =>
        have hpos : 0 < ℓ := hpos fun heof ↦ by cases htoken.symm.trans heof
        refine mirrors_advance.bind fun _ _ _ ↦ keeps_skipNewlines.bind fun _ _ _ ↦ ?_
        refine (h.expression (by omega)).bind ?_
        rintro e e' ⟨he, -⟩
        refine keeps_skipNewlines.bind fun _ _ _ ↦ (consumes_expect (plain_symbol _)).bind ?_
        exact fun _ _ _ ↦ .pure_le ⟨he, hpos⟩ (by omega)
      next htoken =>
        have hpos : 0 < ℓ := hpos fun heof ↦ by cases htoken.symm.trans heof
        refine mirrors_advance.bind fun _ _ _ ↦ keeps_skipNewlines.bind fun _ _ _ ↦ ?_
        refine (h.elements .rightBracket (show AllSame [] [] from rfl) (by omega)).bind ?_
        rintro ⟨es, stop⟩ ⟨es', stop'⟩ ⟨hes, -⟩
        exact .pure_le ⟨.list hes, hpos⟩ (by omega)
      next => exact .unexpected
  · rw [ht]
    exact .unexpected

theorem arguments_succ (h : ExpressionsMirror n) (hm : 8 * ℓ + 1 ≤ m) :
    Consumes ℓ (Grammar.arguments (n + 1)) (Grammar.arguments m) SameElements := by
  obtain ⟨m, rfl⟩ := exists_eq_succ_of_enough hm
  rw [Grammar.arguments, Grammar.arguments]
  refine (consumes_expect (plain_symbol _)).bind ?_
  rintro _ _ ⟨-, hpos⟩
  refine keeps_skipNewlines.bind fun _ _ _ ↦ ?_
  exact (h.elements .rightParen (show AllSame [] [] from rfl) (by omega)).imp
    (fun _ _ hes ↦ ⟨hes.1, hpos⟩) (by omega)

/-- The closing symbol behind elements that were read. -/
theorem consumes_close (close : Symbol) {done done' : List Expr} (hdone : AllSame done done') :
    Consumes ℓ (do return (done.reverse, ← expect (.symbol close)))
      (do return (done'.reverse, ← expect (.symbol close))) SameElements := by
  refine (consumes_expect (plain_symbol close)).bind ?_
  rintro _ _ ⟨-, hpos⟩
  exact .pure ⟨hdone.reverse, hpos⟩ fun _ _ ↦ id

theorem elements_succ (h : ExpressionsMirror n) (close : Symbol) {done done' : List Expr}
    (hdone : AllSame done done') (hm : 8 * ℓ + 5 ≤ m) :
    Consumes ℓ (Grammar.elements (n + 1) close done) (Grammar.elements m close done')
      SameElements := by
  obtain ⟨m, rfl⟩ := exists_eq_succ_of_enough hm
  rw [Grammar.elements, Grammar.elements]
  refine mirrors_nextIs_bind (plain_symbol close) (fun _ ↦ consumes_close close hdone) ?_
  refine (h.expression (by omega)).bind ?_
  rintro e e' ⟨he, hpos⟩
  refine keeps_skipNewlines.bind fun _ _ _ ↦ mirrors_accept_bind (plain_symbol _) (fun _ ↦ ?_) ?_
  · refine keeps_skipNewlines.bind fun _ _ _ ↦ ?_
    exact (h.elements close (hdone.cons he) (by omega)).imp (fun _ _ hes ↦ ⟨hes.1, hpos⟩) (by omega)
  · exact (consumes_close close (hdone.cons he)).imp (fun _ _ hes ↦ ⟨hes.1, hpos⟩) (by omega)

end ExpressionsMirror

theorem expressionsMirror (n : Nat) : ExpressionsMirror n := by
  induction n with
  | zero => exact expressionsMirror_zero
  | succ n h => exact {
      expression := h.expression_succ
      operation := h.operation_succ
      operationTail := h.operationTail_succ
      signed := h.signed_succ
      memberTail := h.memberTail_succ
      primary := h.primary_succ
      arguments := h.arguments_succ
      elements := h.elements_succ }

end Grammar

end BuildScript
