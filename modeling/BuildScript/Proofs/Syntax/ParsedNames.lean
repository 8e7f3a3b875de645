import BuildScript.Syntax.Grammar
import BuildScript.Syntax.Walk

/-!
# Names of parsed variables

Every variable of a parsed script is named by an identifier of its text, and an identifier has no
dots. So in a chain of property accesses that was parsed, the dots of the dotted name stand between
the segments and nowhere else.

## Design

Reading never makes up names: `Grammar.Gives` is a judgement about readers which says that what is
read inherits a property of names from the identifiers among the tokens. It is closed under `bind`,
and holds of each function of the grammar by the induction on the bound that these recurse on.
-/

namespace BuildScript

variable {N : String → Prop}

attribute [simp] Expr.nodes Expr.nodesOfAll Stmt.nodes Stmt.nodesOfAll

/-! ## Names of variables -/

/-- If the node is a variable, its name has the property. -/
def Node.Named (N : String → Prop) : Node → Prop
  | .expr (.var name _) => N name
  | _ => True

/-- The names of all variables in the expression have the property. -/
def Expr.Named (N : String → Prop) (e : Expr) : Prop := ∀ node ∈ e.nodes, node.Named N

def Expr.AllNamed (N : String → Prop) (es : List Expr) : Prop :=
  ∀ node ∈ Expr.nodesOfAll es, node.Named N

/-- The names of all variables in the statement have the property. -/
def Stmt.Named (N : String → Prop) (s : Stmt) : Prop := ∀ node ∈ s.nodes, node.Named N

def Stmt.AllNamed (N : String → Prop) (ss : List Stmt) : Prop :=
  ∀ node ∈ Stmt.nodesOfAll ss, node.Named N

namespace Expr

variable {e e' : Expr} {es : List Expr} {name : String} {span : Span}

@[simp] theorem named_constant {value : Literal} : (constant value span).Named N := by
  simp [Named, Node.Named]

@[simp] theorem named_var : (var name span).Named N ↔ N name := by
  simp [Named, Node.Named]

@[simp] theorem named_property : (property e name span).Named N ↔ e.Named N := by
  simp [Named, Node.Named]

@[simp] theorem named_call : (call name es span).Named N ↔ AllNamed N es := by
  simp [Named, AllNamed, Node.Named]

@[simp] theorem named_invoke :
    (invoke e name es span).Named N ↔ e.Named N ∧ AllNamed N es := by
  simp [Named, AllNamed, Node.Named, or_imp, forall_and]

@[simp] theorem named_binary {op : BinaryOp} :
    (binary op e e' span).Named N ↔ e.Named N ∧ e'.Named N := by
  simp [Named, Node.Named, or_imp, forall_and]

@[simp] theorem named_unary {op : UnaryOp} : (unary op e span).Named N ↔ e.Named N := by
  simp [Named, Node.Named]

@[simp] theorem named_assign : (assign name e span).Named N ↔ e.Named N := by
  simp [Named, Node.Named]

@[simp] theorem named_list : (list es span).Named N ↔ AllNamed N es := by
  simp [Named, AllNamed, Node.Named]

@[simp] theorem allNamed_nil : AllNamed N [] := by simp [AllNamed]

@[simp] theorem allNamed_cons : AllNamed N (e :: es) ↔ e.Named N ∧ AllNamed N es := by
  simp [AllNamed, Named, or_imp, forall_and]

theorem allNamed_iff : AllNamed N es ↔ ∀ e ∈ es, e.Named N := by
  induction es with
  | nil => simp
  | cons e es ih => simp [ih]

@[simp] theorem allNamed_reverse : AllNamed N es.reverse ↔ AllNamed N es := by
  simp [allNamed_iff]

end Expr

namespace Stmt

variable {e : Expr} {s s' : Stmt} {ss : List Stmt} {name : String} {span : Span}

@[simp] theorem named_expression : (expression e).Named N ↔ e.Named N := by
  simp [Named, Expr.Named, Node.Named]

@[simp] theorem named_declare : (declare name (some e) span).Named N ↔ e.Named N := by
  simp [Named, Expr.Named, Node.Named]

@[simp] theorem named_declare_none : (declare name none span).Named N := by
  simp [Named, Node.Named]

@[simp] theorem named_result : (result (some e) span).Named N ↔ e.Named N := by
  simp [Named, Expr.Named, Node.Named]

@[simp] theorem named_result_none : (result none span).Named N := by
  simp [Named, Node.Named]

@[simp] theorem named_ifThen : (ifThen e s span).Named N ↔ e.Named N ∧ s.Named N := by
  simp [Named, Expr.Named, Node.Named, or_imp, forall_and]

@[simp] theorem named_ifElse :
    (ifElse e s s' span).Named N ↔ e.Named N ∧ s.Named N ∧ s'.Named N := by
  simp [Named, Expr.Named, Node.Named, or_imp, forall_and]

@[simp] theorem named_loop : (loop e s span).Named N ↔ e.Named N ∧ s.Named N := by
  simp [Named, Expr.Named, Node.Named, or_imp, forall_and]

@[simp] theorem named_block : (block ss span).Named N ↔ AllNamed N ss := by
  simp [Named, AllNamed, Node.Named]

@[simp] theorem allNamed_nil : AllNamed N [] := by simp [AllNamed]

@[simp] theorem allNamed_cons : AllNamed N (s :: ss) ↔ s.Named N ∧ AllNamed N ss := by
  simp [AllNamed, Named, or_imp, forall_and]

theorem allNamed_iff : AllNamed N ss ↔ ∀ s ∈ ss, s.Named N := by
  induction ss with
  | nil => simp
  | cons s ss ih => simp [ih]

@[simp] theorem allNamed_reverse : AllNamed N ss.reverse ↔ AllNamed N ss := by
  simp [allNamed_iff]

end Stmt

/-- The names of all variables in the script have the property. -/
structure Script.Named (N : String → Prop) (script : Script) : Prop where
  statements : Stmt.AllNamed N script.statements
  methods : ∀ m ∈ script.methods, Stmt.AllNamed N m.body

namespace Grammar

/-! ## Readers that give names of the tokens -/

/-- All identifiers among the tokens have the property. -/
def Supplies (N : String → Prop) (ts : List Located) : Prop :=
  ∀ t ∈ ts, ∀ name, t.token = .identifier name → N name

theorem Supplies.sublist {ts rest : List Located} (h : Supplies N ts) (hrest : rest.Sublist ts) :
    Supplies N rest := fun t ht ↦ h t (hrest.subset ht)

/-- Reading from tokens whose identifiers have the property of names `N` leaves such tokens, whether
it succeeds or not, and gives something that satisfies `Q`. -/
def Gives (N : String → Prop) {α : Type} (x : GrammarM α) (Q : α → Prop) : Prop :=
  ∀ ts, Supplies N ts →
    match x ts with
    | .ok a rest => Q a ∧ Supplies N rest
    | .error _ rest => Supplies N rest

namespace Gives

variable {α β : Type} {x y : GrammarM α} {Q : α → Prop} {R : β → Prop}

theorem pure {a : α} (h : Q a) : Gives N (Pure.pure a : GrammarM α) Q := fun _ hts ↦ ⟨h, hts⟩

theorem bind {f : α → GrammarM β} (hx : Gives N x Q) (hf : ∀ a, Q a → Gives N (f a) R) :
    Gives N (x >>= f) R := by
  intro ts hts
  have hfirst := hx ts hts
  rw [show (x >>= f) ts = EStateM.bind x f ts from rfl, EStateM.bind]
  cases hrun : x ts with
  | ok a rest =>
    rw [hrun] at hfirst
    exact hf a hfirst.1 rest hfirst.2
  | error e rest =>
    rw [hrun] at hfirst
    exact hfirst

/-- Behind a reader whose result does not matter. -/
theorem seq {f : α → GrammarM β} (hx : Gives N x Q) (hf : ∀ a, Gives N (f a) R) :
    Gives N (x >>= f) R := hx.bind fun a _ ↦ hf a

theorem ite {c : Prop} [Decidable c] (hx : Gives N x Q) (hy : Gives N y Q) :
    Gives N (if c then x else y) Q := by
  split
  · exact hx
  · exact hy

end Gives

/-! ## Single tokens -/

section

variable {α : Type} {Q : α → Prop}

theorem gives_get : Gives N get (Supplies N) := fun _ hts ↦ ⟨hts, hts⟩

theorem gives_set {ts : List Located} (h : Supplies N ts) : Gives N (set ts) fun _ ↦ True :=
  fun _ _ ↦ ⟨trivial, h⟩

theorem gives_modify {f : List Located → List Located} (h : ∀ ts, (f ts).Sublist ts) :
    Gives N (modify f) fun _ ↦ True := fun ts hts ↦ ⟨trivial, hts.sublist (h ts)⟩

theorem gives_current : Gives N current fun t ↦ ∀ name, t.token = .identifier name → N name := by
  intro ts hts
  refine ⟨fun name hname ↦ ?_, hts⟩
  cases ts with
  | nil => cases hname
  | cons t ts => exact hts t List.mem_cons_self name hname

theorem gives_advance : Gives N advance fun _ ↦ True := gives_modify fun ts ↦ List.drop_sublist 1 ts

theorem gives_fail {fault : SyntaxFault} {span : Span} : Gives N (fail fault span : GrammarM α) Q :=
  fun _ hts ↦ hts

theorem gives_fail_bind {β : Type} {fault : SyntaxFault} {span : Span} {f : β → GrammarM α} :
    Gives N (fail fault span >>= f) Q := fun _ hts ↦ hts

theorem gives_unexpected {wanted : Wanted} : Gives N (unexpected wanted : GrammarM α) Q :=
  fun _ hts ↦ hts

theorem gives_tooDeep : Gives N (tooDeep : GrammarM α) Q := fun _ hts ↦ hts

theorem gives_skipNewlines : Gives N skipNewlines fun _ ↦ True :=
  gives_modify fun _ ↦ List.dropWhile_sublist _

theorem gives_skipSeparators : Gives N skipSeparators fun _ ↦ True :=
  gives_modify fun _ ↦ List.dropWhile_sublist _

theorem gives_nextIs {t : Token} : Gives N (nextIs t) fun _ ↦ True := fun _ hts ↦ ⟨trivial, hts⟩

theorem gives_accept {t : Token} : Gives N (accept t) fun _ ↦ True :=
  gives_nextIs.seq fun _ ↦ .ite (gives_advance.seq fun _ ↦ .pure trivial) (.pure trivial)

theorem gives_expect {t : Token} : Gives N (expect t) fun _ ↦ True :=
  gives_current.seq fun _ ↦ .ite (gives_advance.seq fun _ ↦ .pure trivial) gives_unexpected

theorem gives_identifier {wanted : Wanted} : Gives N (identifier wanted) fun n ↦ N n.name := by
  refine gives_current.bind fun next hnext ↦ ?_
  split
  next name hname => exact gives_advance.seq fun _ ↦ .pure (hnext name hname)
  next => exact gives_unexpected

theorem gives_atMethod : Gives N atMethod fun _ ↦ True := by
  refine gives_get.seq fun ts ↦ ?_
  split
  · exact .pure trivial
  · exact .pure trivial

end

/-! ## Expressions -/

/-- The functions for expressions, all with one bound, give expressions whose variables have names
of the tokens. -/
structure ExpressionsGive (N : String → Prop) (n : Nat) : Prop where
  expression : Gives N (expression n) (·.Named N)
  operation : ∀ level, Gives N (operation n level) (·.Named N)
  operationTail : ∀ level left, left.Named N → Gives N (operationTail n level left) (·.Named N)
  signed : Gives N (signed n) (·.Named N)
  memberTail : ∀ object, object.Named N → Gives N (memberTail n object) (·.Named N)
  primary : Gives N (primary n) (·.Named N)
  arguments : Gives N (arguments n) fun p ↦ Expr.AllNamed N p.1
  elements : ∀ close done, Expr.AllNamed N done →
    Gives N (elements n close done) fun p ↦ Expr.AllNamed N p.1

theorem expressionsGive_zero : ExpressionsGive N 0 where
  expression := by rw [expression]; exact gives_tooDeep
  operation _ := by rw [operation]; exact gives_tooDeep
  operationTail _ _ _ := by rw [operationTail]; exact gives_tooDeep
  signed := by rw [signed]; exact gives_tooDeep
  memberTail _ _ := by rw [memberTail]; exact gives_tooDeep
  primary := by rw [primary]; exact gives_tooDeep
  arguments := by rw [arguments]; exact gives_tooDeep
  elements _ _ _ := by rw [elements]; exact gives_tooDeep

namespace ExpressionsGive

variable {n : Nat}

theorem expression_succ (h : ExpressionsGive N n) :
    Gives N (Grammar.expression (n + 1)) (·.Named N) := by
  rw [Grammar.expression]
  refine (h.operation 0).bind fun target htarget ↦ gives_current.seq fun next ↦ .ite ?_ (.pure htarget)
  refine gives_advance.seq fun _ ↦ gives_skipNewlines.seq fun _ ↦ ?_
  split
  · exact h.expression.bind fun value hvalue ↦ .pure (by simpa using hvalue)
  · exact gives_fail

theorem operation_succ (h : ExpressionsGive N n) (level : Nat) :
    Gives N (Grammar.operation (n + 1) level) (·.Named N) := by
  rw [Grammar.operation]
  exact h.signed.bind fun left hleft ↦ h.operationTail level left hleft

theorem operationTail_succ (h : ExpressionsGive N n) (level : Nat) (left : Expr)
    (hleft : left.Named N) : Gives N (Grammar.operationTail (n + 1) level left) (·.Named N) := by
  rw [Grammar.operationTail]
  refine gives_current.seq fun next ↦ ?_
  split
  next op binding hop =>
    refine .ite (.pure hleft) ?_
    refine gives_advance.seq fun _ ↦ gives_skipNewlines.seq fun _ ↦ ?_
    refine (h.operation _).bind fun right hright ↦ h.operationTail level _ ?_
    exact Expr.named_binary.mpr ⟨hleft, hright⟩
  next => exact .pure hleft

theorem signed_succ (h : ExpressionsGive N n) : Gives N (Grammar.signed (n + 1)) (·.Named N) := by
  rw [Grammar.signed]
  refine gives_current.seq fun next ↦ ?_
  split
  next op hop =>
    refine gives_advance.seq fun _ ↦ h.signed.bind fun operand hoperand ↦ .pure ?_
    exact Expr.named_unary.mpr hoperand
  next => exact h.primary.bind fun e he ↦ h.memberTail e he

theorem memberTail_succ (h : ExpressionsGive N n) (object : Expr) (hobject : object.Named N) :
    Gives N (Grammar.memberTail (n + 1) object) (·.Named N) := by
  rw [Grammar.memberTail]
  refine gives_accept.seq fun _ ↦ .ite ?_ (.pure hobject)
  refine gives_skipNewlines.seq fun _ ↦ gives_identifier.seq fun member ↦ ?_
  refine gives_nextIs.seq fun _ ↦ .ite ?_ ?_
  · refine h.arguments.bind fun arguments harguments ↦ h.memberTail _ ?_
    exact Expr.named_invoke.mpr ⟨hobject, harguments⟩
  · exact h.memberTail _ (Expr.named_property.mpr hobject)

theorem primary_succ (h : ExpressionsGive N n) : Gives N (Grammar.primary (n + 1)) (·.Named N) := by
  rw [Grammar.primary]
  refine gives_current.bind fun next hnext ↦ ?_
  split
  next value hvalue => exact gives_advance.seq fun _ ↦ .pure Expr.named_constant
  next =>
    split
    next name hname =>
      refine gives_advance.seq fun _ ↦ gives_nextIs.seq fun _ ↦ .ite ?_ ?_
      · refine h.arguments.bind fun arguments harguments ↦ .pure ?_
        exact Expr.named_call.mpr harguments
      · exact .pure (Expr.named_var.mpr (hnext name hname))
    next =>
      refine gives_advance.seq fun _ ↦ gives_skipNewlines.seq fun _ ↦ h.expression.bind fun e he ↦ ?_
      exact gives_skipNewlines.seq fun _ ↦ gives_expect.seq fun _ ↦ .pure he
    next =>
      refine gives_advance.seq fun _ ↦ gives_skipNewlines.seq fun _ ↦ ?_
      refine (h.elements _ [] Expr.allNamed_nil).bind fun elements helements ↦ .pure ?_
      exact Expr.named_list.mpr helements
    next => exact gives_unexpected

theorem arguments_succ (h : ExpressionsGive N n) :
    Gives N (Grammar.arguments (n + 1)) fun p ↦ Expr.AllNamed N p.1 := by
  rw [Grammar.arguments]
  refine gives_expect.seq fun _ ↦ gives_skipNewlines.seq fun _ ↦ ?_
  exact h.elements _ [] Expr.allNamed_nil

theorem elements_succ (h : ExpressionsGive N n) (close : Symbol) (done : List Expr)
    (hdone : Expr.AllNamed N done) :
    Gives N (Grammar.elements (n + 1) close done) fun p ↦ Expr.AllNamed N p.1 := by
  rw [Grammar.elements]
  refine gives_nextIs.seq fun _ ↦ .ite ?_ ?_
  · exact gives_expect.seq fun _ ↦ .pure (Expr.allNamed_reverse.mpr hdone)
  · refine h.expression.bind fun e he ↦ gives_skipNewlines.seq fun _ ↦ gives_accept.seq fun _ ↦ ?_
    have hmore : Expr.AllNamed N (e :: done) := Expr.allNamed_cons.mpr ⟨he, hdone⟩
    refine .ite (gives_skipNewlines.seq fun _ ↦ h.elements close _ hmore) ?_
    exact gives_expect.seq fun _ ↦ .pure (Expr.allNamed_reverse.mpr hmore)

end ExpressionsGive

theorem expressionsGive (n : Nat) : ExpressionsGive N n := by
  induction n with
  | zero => exact expressionsGive_zero
  | succ n ih => exact
    { expression := ih.expression_succ
      operation := ih.operation_succ
      operationTail := ih.operationTail_succ
      signed := ih.signed_succ
      memberTail := ih.memberTail_succ
      primary := ih.primary_succ
      arguments := ih.arguments_succ
      elements := ih.elements_succ }

/-! ## Statements -/

section

variable {n : Nat}

theorem gives_expression : Gives N (expression n) (·.Named N) := (expressionsGive n).expression

theorem gives_statementEnd (inBlock : Bool) : Gives N (statementEnd inBlock) fun _ ↦ True := by
  refine gives_current.seq fun next ↦ ?_
  split
  · exact .pure trivial
  · exact .pure trivial
  · exact .pure trivial
  · exact .ite (.pure trivial) gives_unexpected
  · exact gives_unexpected

theorem gives_commandArguments (done : List Expr) (hdone : Expr.AllNamed N done) :
    Gives N (commandArguments n done) (Expr.AllNamed N) := by
  induction n generalizing done with
  | zero => exact gives_tooDeep
  | succ n ih =>
    rw [commandArguments]
    refine gives_accept.seq fun _ ↦ .ite ?_ (.pure (Expr.allNamed_reverse.mpr hdone))
    refine gives_skipNewlines.seq fun _ ↦ gives_expression.bind fun e he ↦ ih _ ?_
    exact Expr.allNamed_cons.mpr ⟨he, hdone⟩

theorem gives_expressionStatement : Gives N (expressionStatement n) (·.Named N) := by
  refine gives_expression.bind fun e he ↦ gives_current.seq fun next ↦ .ite ?_ ?_
  · split
    · refine gives_expression.bind fun first hfirst ↦ ?_
      refine (gives_commandArguments [first] (by simpa using hfirst)).bind fun arguments h ↦ .pure ?_
      simpa using h
    · refine gives_expression.bind fun first hfirst ↦ ?_
      refine (gives_commandArguments [first] (by simpa using hfirst)).bind fun arguments h ↦ .pure ?_
      simpa using ⟨by simpa using he, h⟩
    · exact gives_unexpected
  · exact .pure (Stmt.named_expression.mpr he)

theorem gives_declaration : Gives N (declaration n) (·.Named N) := by
  refine gives_atMethod.seq fun _ ↦ .ite (gives_current.seq fun _ ↦ gives_fail_bind) ?_
  refine gives_expect.seq fun start ↦ gives_identifier.seq fun binder ↦ ?_
  refine gives_accept.seq fun _ ↦ .ite ?_ (.pure Stmt.named_declare_none)
  refine gives_skipNewlines.seq fun _ ↦ gives_expression.bind fun value hvalue ↦ .pure ?_
  exact Stmt.named_declare.mpr hvalue

theorem gives_condition : Gives N (condition n) (·.Named N) := by
  refine gives_expect.seq fun _ ↦ gives_skipNewlines.seq fun _ ↦ gives_expression.bind fun e he ↦ ?_
  refine gives_skipNewlines.seq fun _ ↦ gives_expect.seq fun _ ↦ gives_skipNewlines.seq fun _ ↦ ?_
  exact .pure he

theorem gives_result : Gives N (result n) (·.Named N) := by
  have hvalue (start : Span) : Gives N (do
      let value ← expression n
      return .result (some value) (start.merge value.span)) (Stmt.Named N) :=
    gives_expression.bind fun value hvalue ↦ .pure (Stmt.named_result.mpr hvalue)
  refine gives_expect.seq fun start ↦ gives_current.seq fun next ↦ ?_
  split
  · exact .pure Stmt.named_result_none
  · exact .pure Stmt.named_result_none
  · exact .pure Stmt.named_result_none
  · exact .pure Stmt.named_result_none
  · exact hvalue start

end

/-- The functions for statements, all with one bound, give statements whose variables have names of
the tokens. -/
structure StatementsGive (N : String → Prop) (n : Nat) : Prop where
  statement : Gives N (statement n) (·.Named N)
  block : Gives N (block n) fun p ↦ Stmt.AllNamed N p.1
  blockBody : ∀ done, Stmt.AllNamed N done → Gives N (blockBody n done) (Stmt.AllNamed N)

theorem statementsGive_zero : StatementsGive N 0 where
  statement := by rw [statement]; exact gives_tooDeep
  block := by rw [block]; exact gives_tooDeep
  blockBody _ _ := by rw [blockBody]; exact gives_tooDeep

namespace StatementsGive

variable {n : Nat}

theorem statement_succ (h : StatementsGive N n) :
    Gives N (Grammar.statement (n + 1)) (·.Named N) := by
  rw [Grammar.statement]
  refine gives_current.seq fun next ↦ ?_
  split
  next => exact gives_declaration
  next =>
    refine gives_advance.seq fun _ ↦ gives_condition.bind fun test htest ↦ ?_
    refine h.statement.bind fun body hbody ↦ gives_get.bind fun ts hts ↦ ?_
    have hrest : Supplies N (ts.dropWhile (·.token == .newline)) :=
      hts.sublist (List.dropWhile_sublist _)
    split
    next rest heq =>
      rw [heq] at hrest
      refine (gives_set (hrest.sublist (List.sublist_cons_self _ rest))).seq fun _ ↦ ?_
      refine gives_skipNewlines.seq fun _ ↦ h.statement.bind fun alternative halternative ↦ .pure ?_
      exact Stmt.named_ifElse.mpr ⟨htest, hbody, halternative⟩
    next => exact .pure (Stmt.named_ifThen.mpr ⟨htest, hbody⟩)
  next =>
    refine gives_advance.seq fun _ ↦ gives_condition.bind fun test htest ↦ ?_
    exact h.statement.bind fun body hbody ↦ .pure (Stmt.named_loop.mpr ⟨htest, hbody⟩)
  next => exact gives_result
  next => exact h.block.bind fun body hbody ↦ .pure (Stmt.named_block.mpr hbody)
  next => exact gives_fail
  next => exact gives_fail
  next => exact gives_expressionStatement

theorem block_succ (h : StatementsGive N n) :
    Gives N (Grammar.block (n + 1)) fun p ↦ Stmt.AllNamed N p.1 := by
  rw [Grammar.block]
  refine gives_expect.seq fun start ↦ (h.blockBody [] Stmt.allNamed_nil).bind fun body hbody ↦ ?_
  exact gives_expect.seq fun stop ↦ .pure hbody

theorem blockBody_succ (h : StatementsGive N n) (done : List Stmt) (hdone : Stmt.AllNamed N done) :
    Gives N (Grammar.blockBody (n + 1) done) (Stmt.AllNamed N) := by
  rw [Grammar.blockBody]
  refine gives_skipSeparators.seq fun _ ↦ gives_current.seq fun next ↦ ?_
  split
  next => exact .pure (Stmt.allNamed_reverse.mpr hdone)
  next => exact .pure (Stmt.allNamed_reverse.mpr hdone)
  next =>
    refine h.statement.bind fun s hs ↦ (gives_statementEnd true).seq fun _ ↦ h.blockBody _ ?_
    exact Stmt.allNamed_cons.mpr ⟨hs, hdone⟩

end StatementsGive

theorem statementsGive (n : Nat) : StatementsGive N n := by
  induction n with
  | zero => exact statementsGive_zero
  | succ n ih => exact
    { statement := ih.statement_succ
      block := ih.block_succ
      blockBody := ih.blockBody_succ }

/-! ## Headers and methods -/

section

variable {n : Nat} {script : Script}

theorem gives_nameTail {star : Bool} (start : BuildScript.Named) :
    Gives N (nameTail star n start) fun _ ↦ True := by
  induction n generalizing start with
  | zero => exact gives_tooDeep
  | succ n ih =>
    rw [nameTail]
    refine gives_accept.seq fun _ ↦ .ite ?_ (.pure trivial)
    refine gives_current.seq fun next ↦ .ite (gives_advance.seq fun _ ↦ .pure trivial) ?_
    exact gives_identifier.seq fun segment ↦ ih _

theorem gives_qualifiedName {star : Bool} : Gives N (qualifiedName star n) fun _ ↦ True :=
  gives_identifier.seq fun start ↦ gives_nameTail start

theorem gives_package : Gives N (package n) fun _ ↦ True :=
  gives_expect.seq fun _ ↦ gives_qualifiedName.seq fun _ ↦ .pure trivial

theorem gives_importInto (h : script.Named N) : Gives N (importInto script n) (·.Named N) := by
  refine gives_expect.seq fun start ↦ gives_current.seq fun next ↦ .ite gives_fail_bind ?_
  refine gives_qualifiedName.seq fun name ↦ ?_
  split
  next => exact .pure ⟨h.statements, h.methods⟩
  next =>
    refine gives_accept.seq fun _ ↦ .ite (gives_identifier.seq fun localName ↦ ?_) ?_
    · exact .pure ⟨h.statements, h.methods⟩
    · exact .pure ⟨h.statements, h.methods⟩

theorem gives_parameters (done : List BuildScript.Named) :
    Gives N (parameters n done) fun _ ↦ True := by
  induction n generalizing done with
  | zero => exact gives_tooDeep
  | succ n ih =>
    rw [parameters]
    refine gives_nextIs.seq fun _ ↦ .ite (.pure trivial) ?_
    refine gives_identifier.seq fun parameter ↦ .ite gives_fail_bind ?_
    refine gives_skipNewlines.seq fun _ ↦ gives_accept.seq fun _ ↦ .ite ?_ (.pure trivial)
    exact gives_skipNewlines.seq fun _ ↦ ih _

theorem gives_method : Gives N (method n) fun m ↦ Stmt.AllNamed N m.body := by
  refine gives_expect.seq fun start ↦ gives_identifier.seq fun name ↦ gives_expect.seq fun _ ↦ ?_
  refine gives_skipNewlines.seq fun _ ↦ (gives_parameters []).seq fun parameters ↦ ?_
  refine gives_expect.seq fun _ ↦ gives_skipNewlines.seq fun _ ↦ ?_
  exact (statementsGive n).block.bind fun body hbody ↦ .pure hbody

/-! ## Scripts -/

theorem gives_item (h : script.Named N) : Gives N (item script n) (·.Named N) := by
  refine gives_current.seq fun next ↦ ?_
  split
  next => exact gives_package.seq fun name ↦ .ite (.pure ⟨h.statements, h.methods⟩) gives_fail
  next => exact gives_importInto h
  next =>
    refine gives_atMethod.seq fun _ ↦ .ite ?_ ?_
    · refine gives_method.bind fun m hm ↦ .pure ⟨h.statements, ?_⟩
      exact List.forall_mem_cons.mpr ⟨hm, h.methods⟩
    · refine (statementsGive n).statement.bind fun s hs ↦ .pure ⟨?_, h.methods⟩
      exact Stmt.allNamed_cons.mpr ⟨hs, h.statements⟩

/-- Reading items keeps, whatever errors arise, that variables have names of the tokens. -/
theorem named_items (rounds : Nat) (errors : List SyntaxError) {ts : List Located}
    (hts : Supplies N ts) (h : script.Named N) : (items n rounds script errors ts).1.Named N := by
  induction rounds generalizing script errors ts with
  | zero => exact h
  | succ rounds ih =>
    rw [items]
    have hskipped : Supplies N (ts.dropWhile (·.token.isSeparator)) :=
      hts.sublist (List.dropWhile_sublist _)
    have hrecover {ts : List Located} (hts : Supplies N ts) : Supplies N (recover ts) :=
      hts.sublist (List.dropWhile_sublist _)
    split
    next => exact h
    next => exact h
    next =>
      have hitem := gives_item (n := n) h _ hskipped
      split
      next e rest heq =>
        rw [heq] at hitem
        exact ih _ (hrecover hitem) h
      next script' rest heq =>
        rw [heq] at hitem
        have hend := gives_statementEnd false rest hitem.2
        split
        next e rest' heq' =>
          rw [heq'] at hend
          exact ih _ (hrecover hend) hitem.1
        next u rest' heq' =>
          rw [heq'] at hend
          exact ih _ hend.2 hitem.1

end

end Grammar

/-- The variables of a script that tokens spell are named by identifiers among them. -/
theorem named_of_parseTokens {ts : List Located} {script : Script}
    (hts : Grammar.Supplies N ts) (h : parseTokens ts = .ok script) : script.Named N := by
  rw [parseTokens] at h
  dsimp only at h
  split at h
  · cases h
    have hstart : Script.Named N { span := (ts.headD ⟨.eof, .none⟩).span } :=
      ⟨Stmt.allNamed_nil, by simp⟩
    have hitems := Grammar.named_items (n := 8 * (ts.length + 2)) (ts.length + 1) [] hts hstart
    exact ⟨Stmt.allNamed_reverse.mpr hitems.statements, by simpa using hitems.methods⟩
  · cases h

/-! ## Identifiers of a text -/

namespace Lexeme

theorem isNamePart_of_isNameStart {c : Char} (h : isNameStart c = true) : isNamePart c = true := by
  rw [isNameStart] at h
  rw [isNamePart]
  simp only [Bool.or_eq_true] at h ⊢
  rcases h with (h | h) | h
  · exact .inl (.inl (.inl h))
  · exact .inl (.inr h)
  · exact .inr h

theorem number_ne_identifier (c : Char) (cs : List Char) (name : String) :
    (number c cs).reading ≠ .token (.identifier name) := by
  simp only [number]
  split
  · split
    · split <;> simp
    · split <;> simp
  · split <;> simp

theorem symbol_ne_identifier (c : Char) (cs : List Char) (name : String) :
    (symbol c cs).reading ≠ .token (.identifier name) := by
  simp only [symbol]
  split
  · simp
  · split <;> simp

/-- An identifier at the head of a text is made of the characters of names. -/
theorem isNamePart_of_scan {c : Char} {cs : List Char} {name : String}
    (h : (scan c cs).reading = .token (.identifier name)) :
    ∀ d ∈ name.toList, isNamePart d = true := by
  rw [scan.eq_def] at h
  split at h
  · cases h
  split at h
  · cases h
  split at h
  next hstart =>
    have hname : String.ofList (c :: cs.takeWhile isNamePart) = name := by
      simp only [word, Reading.token.injEq] at h
      split at h
      · cases h
      · exact Token.identifier.inj h
    intro d hd
    rw [← hname, String.toList_ofList, List.mem_cons] at hd
    rcases hd with rfl | hd
    · exact isNamePart_of_isNameStart hstart
    · exact List.all_eq_true.mp List.all_takeWhile d hd
  split at h
  · exact absurd h (number_ne_identifier c cs name)
  split at h
  · simp only [string] at h
    split at h <;> cases h
  · split at h
    · cases h
    · split at h <;> cases h
    · exact absurd h (symbol_ne_identifier _ _ name)

end Lexeme

/-- The pieces of a text are read off its rests. -/
theorem exists_scan_of_mem_piecesFrom {place : Place} {pieces : Array Piece} {text : List Char}
    {p : Piece} (h : p ∈ (piecesFrom place pieces text).1) :
    p ∈ pieces ∨ ∃ c cs, p.reading = (Lexeme.scan c cs).reading := by
  fun_induction piecesFrom place pieces text with
  | case1 => exact .inl h
  | case2 place pieces c cs lexeme stop ih =>
    rcases ih h with hmem | hscan
    · rcases Array.mem_push.mp hmem with hmem | rfl
      · exact .inl hmem
      · exact .inr ⟨c, cs, rfl⟩
    · exact .inr hscan

/-- No identifier of a text has a dot. -/
theorem supplies_of_tokenize {text : List Char} {ts : List Located} (h : tokenize text = .ok ts) :
    Grammar.Supplies (fun name ↦ '.' ∉ name.toList) ts := by
  rw [tokenize] at h
  dsimp only at h
  split at h
  · cases h
    intro t ht name hname hdot
    rw [List.mem_append, List.mem_filterMap, List.mem_singleton] at ht
    rcases ht with ⟨p, hp, hread⟩ | rfl
    · obtain hmem | ⟨c, cs, hscan⟩ := exists_scan_of_mem_piecesFrom (Array.mem_toList_iff.mp hp)
      · simp at hmem
      · split at hread
        next t' heq =>
          cases hread
          rw [hscan, show t' = .identifier name from hname] at heq
          have := Lexeme.isNamePart_of_scan heq '.' hdot
          simp [Lexeme.isNamePart] at this
        next => cases hread
    · cases hname
  · cases h

/-- No variable of a parsed script has a dot in its name. -/
theorem named_of_parse {text : String} {script : Script} (h : parse text = .ok script) :
    script.Named fun name ↦ '.' ∉ name.toList := by
  rw [parse] at h
  split at h
  next ts hts => exact named_of_parseTokens (supplies_of_tokenize hts) h
  next => cases h

end BuildScript
