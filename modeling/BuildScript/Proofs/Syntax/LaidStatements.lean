import BuildScript.Proofs.Syntax.LaidExpressions

/-!
# Statements, headers and methods are laid out where they were read

A call without parentheses is the one node that is made of an expression after that was read: what
was taken for a variable or a property becomes a call. Its receiver stands in the text of that
expression and its arguments behind it, so they make a row all the same.
-/

namespace BuildScript

namespace Grammar

variable {text : List Char} {n : Nat}

/-! ## Simple statements -/

theorem Placed.expression {ts rest : List Located} {e : Expr} (h : Placed text ts rest (.expr e)) :
    Placed text ts rest (.stmt (.expression e)) := by
  refine ⟨h.spans, Row.laid_of_groups ?_ rfl h.spans.marks⟩
  exact h.rowWithin (Nat.le_refl _) (Nat.le_refl _)

/-- The receiver of a property stands in the text of the property. -/
theorem Placed.row_receiver {ts rest : List Located} {receiver : Expr} {name : String}
    {span : Span} (h : Placed text ts rest (.expr (.property receiver name span))) :
    Row text span.start span.stop [.expr receiver] := by
  obtain ⟨-, inside, -, -, below⟩ := h.laid
  obtain ⟨hstart, hpos, hstop⟩ := inside (.expr receiver) List.mem_cons_self
  exact .single hstart hpos hstop (below (.expr receiver) List.mem_cons_self)

/-- Arguments that end with one that was read from `ts` on, the others being in front of it. -/
def EndsWith (text : List Char) (lo : Nat) (ts : List Located) (es : List Expr)
    (rest : List Located) : Prop :=
  ∃ init last, es = init ++ [last] ∧ Row text lo last.span.start (init.map .expr) ∧
    Placed text ts rest (.expr last)

theorem Placed.row_concat {lo : Nat} {init : List Expr} {last : Expr} {ts rest : List Located}
    (hlast : Placed text ts rest (.expr last))
    (hinit : Row text lo last.span.start (init.map .expr)) :
    Row text lo last.span.stop ((init ++ [last]).map .expr) := by
  rw [List.map_append]
  exact hinit.append (hlast.rowWithin (Nat.le_refl _) (Nat.le_refl _))

theorem lays_commandArguments {lo : Nat} {done : List Expr} {e : Expr} {ts mid : List Located}
    (hdone : Row text lo e.span.start (done.reverse.map .expr)) (he : Placed text ts mid (.expr e))
    (hn : 8 * mid.length + 1 ≤ n) :
    Lays text mid (commandArguments n (e :: done)) mid (EndsWith text lo ts) := by
  induction n generalizing done e mid with
  | zero => exact absurd hn (by omega)
  | succ n ih =>
    have hhere : EndsWith text lo ts (e :: done).reverse mid :=
      ⟨done.reverse, e, List.reverse_cons, hdone, he⟩
    rw [commandArguments]
    refine .accept nofun (fun comma behind hcomma ↦ ?_) (.pure fun _ ↦ hhere)
    refine .skipNewlines fun mid' hskip ↦ ?_
    have hbehind := hcomma.shorter
    have hmid' := hskip.length_le
    have hbetween := hcomma.toLeft.trans hskip
    have hnext := (expressionsLaid text n).expression mid' (by omega)
    refine .call hnext fun e' rest he' ↦ ?_
    have hrest := he'.spans.shorter
    refine .last (ih ?_ (he'.widen (he.spans.toLeft.trans hbetween) he'.spans.queue.left) (by omega))
      fun _ _ ↦ id
    rw [List.reverse_cons, List.map_append]
    have hle := he.spans.stop_le_start hbetween he'.spans
    exact hdone.append (he.rowWithin (Nat.le_refl _) hle)

/-- The arguments of a call without parentheses, behind what is called. -/
theorem lays_firstArgument {f : Expr → List Expr → GrammarM Stmt} {ts mid : List Located} {s : Span}
    {Q : Stmt → List Located → Prop} (hs : Spans text ts mid s) (hn : 8 * ts.length + 4 ≤ n)
    (hf : ∀ first es rest, EndsWith text s.stop mid es rest → Lays text ts (f first es) rest Q) :
    Lays text ts (do
      let first ← expression n
      let arguments ← commandArguments n [first]
      f first arguments) mid Q := by
  have hmid := hs.shorter
  refine .call ((expressionsLaid text n).expression mid (by omega)) fun first mid' hfirst ↦ ?_
  have hmid' := hfirst.spans.shorter
  have hle := hs.stop_le_start hs.queue.left hfirst.spans
  have hnone : Row text s.stop first.span.start (([] : List Expr).reverse.map .expr) := .nil hle
  have hmore := lays_commandArguments hnone hfirst (show 8 * mid'.length + 1 ≤ n by omega)
  exact .call hmore fun es rest hes ↦ hf first es rest hes

theorem lays_expressionStatement : Places text n 4 .stmt (expressionStatement n) := by
  intro ts hn
  refine .call ((expressionsLaid text n).expression ts hn) fun e mid he ↦ .current fun next _ ↦ ?_
  refine .ite (fun _ ↦ ?_) fun _ ↦ .pure fun _ ↦ he.expression
  split
  next name span =>
    refine lays_firstArgument he.spans hn fun first es rest hes ↦ .pure fun _ ↦ .expression ?_
    obtain ⟨init, last, rfl, hinit, hlast⟩ := hes
    rw [List.getLastD_concat]
    refine .node he.spans he.spans.queue.left hlast.spans rfl rfl ?_
    exact (hlast.row_concat hinit).mono he.spans.nonempty.le (Nat.le_refl _)
  next receiver name span =>
    refine lays_firstArgument he.spans hn fun first es rest hes ↦ .pure fun _ ↦ .expression ?_
    obtain ⟨init, last, rfl, hinit, hlast⟩ := hes
    rw [List.getLastD_concat]
    refine .node he.spans he.spans.queue.left hlast.spans rfl rfl ?_
    exact he.row_receiver.append (hlast.row_concat hinit)
  next => exact .unexpected

theorem lays_declaration : Places text n 0 .stmt (declaration n) := by
  intro ts hn
  refine .atMethod fun b ↦ .ite (fun _ ↦ .current fun t hnext ↦ .fail_bind (.failHere nofun hnext))
    fun _ ↦ ?_
  refine .expect nofun fun start mid hstart ↦ .identifier fun binder mid' hbinder ↦ ?_
  have hspan := hstart.merge hstart.queue.left hbinder
  have hmid := hstart.shorter
  have hmid' := hbinder.shorter
  refine .accept nofun (fun assign behind hassign ↦ .skipNewlines fun mid'' hskip ↦ ?_)
    (.pure fun _ ↦ .leaf hspan rfl)
  have hbehind := hassign.shorter
  have hmid'' := hskip.length_le
  have hvalue := (expressionsLaid text n).expression mid'' (by omega)
  refine .call hvalue fun value rest hvalue ↦ .pure fun _ ↦ ?_
  exact .node_single hspan (hassign.toLeft.trans hskip) hvalue rfl rfl

theorem lays_condition : Places text n 0 .expr (condition n) := by
  intro ts hn
  refine .expect nofun fun paren behind hparen ↦ .skipNewlines fun mid hskip ↦ ?_
  have hbehind := hparen.shorter
  have hmid := hskip.length_le
  have he := (expressionsLaid text n).expression mid (by omega)
  refine .call he fun e mid' he ↦ .skipNewlines fun mid'' hskip' ↦ ?_
  refine .expect nofun fun stop mid₃ hstop ↦ .skipNewlines fun rest hskip'' ↦ .pure fun _ ↦ ?_
  exact he.widen (hparen.toLeft.trans hskip) (hskip'.trans (hstop.toLeft.trans hskip''))

theorem lays_result : Places text n 0 .stmt (result n) := by
  intro ts hn
  refine .expect nofun fun start mid hstart ↦ .current fun next _ ↦ ?_
  have hleaf : Placed text ts mid (.stmt (.result none start)) := .leaf hstart rfl
  have hmid := hstart.shorter
  split
  next => exact .pure fun _ ↦ hleaf
  next => exact .pure fun _ ↦ hleaf
  next => exact .pure fun _ ↦ hleaf
  next => exact .pure fun _ ↦ hleaf
  next =>
    have hvalue := (expressionsLaid text n).expression mid (by omega)
    refine .call hvalue fun value rest hvalue ↦ .pure fun _ ↦ ?_
    exact .node_single hstart hstart.queue.left hvalue rfl rfl

/-! ## Statements with statements in them -/

/-- Statements in braces, and the span of the whole. -/
def Braces (text : List Char) (ts : List Located) (p : List Stmt × Span) (rest : List Located) :
    Prop :=
  Spans text ts rest p.2 ∧ Row text p.2.start p.2.stop (p.1.map .stmt)

/-- The functions for statements, all with one bound, read nodes from the text. -/
structure StatementsLaid (text : List Char) (n : Nat) : Prop where
  statement : Places text n 5 .stmt (statement n)
  block : ∀ ts, 8 * ts.length + 1 ≤ n → Lays text ts (block n) ts (Braces text ts)
  blockBody : ∀ done lo ts, 8 * ts.length + 6 ≤ n →
    Row text lo (position ts) (done.reverse.map .stmt) →
    Lays text ts (blockBody n done) ts fun body rest ↦
      Left text ts rest ∧ Row text lo (position rest) (body.map .stmt)

namespace StatementsLaid

theorem zero : StatementsLaid text 0 where
  statement _ hn := absurd hn (by omega)
  block _ hn := absurd hn (by omega)
  blockBody _ _ _ hn := absurd hn (by omega)

/-- A keyword, a condition and the statement that it guards. -/
theorem lays_guarded (h : StatementsLaid text n) {ts : List Located} {next : Located}
    {f : Expr → Stmt → GrammarM Stmt} {Q : Stmt → List Located → Prop}
    (hnext : ts.head? = some next) (hne : next.token ≠ .eof) (hn : 8 * ts.length + 5 ≤ n + 1)
    (hf : ∀ test body mid mid' rest, Spans text ts mid next.span → Left text mid mid' →
      Spans text mid' rest body.span →
      Row text next.span.start body.span.stop [.expr test, .stmt body] →
      Lays text ts (f test body) rest Q) :
    Lays text ts (do
      advance
      let test ← condition n
      let body ← Grammar.statement n
      f test body) ts Q := by
  refine .advance hnext hne fun mid hspans ↦ ?_
  have hmid := hspans.shorter
  refine .call (lays_condition mid (by omega)) fun test mid' htest ↦ ?_
  have hmid' := htest.spans.shorter
  refine .call (h.statement mid' (by omega)) fun body rest hbody ↦ ?_
  have hle := hspans.stop_le_start hspans.queue.left htest.spans
  have hle' := htest.spans.stop_le_start htest.spans.queue.left hbody.spans
  refine hf test body mid mid' rest hspans htest.spans.toLeft hbody.spans ?_
  refine .cons (Nat.le_trans hspans.nonempty.le hle) htest.spans.nonempty htest.laid ?_
  exact hbody.rowWithin hle' (Nat.le_refl _)

theorem statement_succ (h : StatementsLaid text n) :
    Places text (n + 1) 5 .stmt (Grammar.statement (n + 1)) := by
  intro ts hn
  rw [Grammar.statement]
  refine .current fun next hnext ↦ ?_
  split
  next => exact lays_declaration ts (by omega)
  next hif =>
    refine h.lays_guarded hnext (by rw [hif]; nofun) hn
      fun test body mid mid' mid₃ hspans hmid hbody hrow ↦ .get ?_
    have hspan := hspans.merge hmid hbody
    split
    next elseSpan behind heq =>
      -- The newlines in front of `else` are only gone once it is known to be there.
      have hnewlines := hbody.queue.left_dropWhile (· == .newline) rfl
      rw [heq] at hnewlines
      have hbehind := hnewlines.trans (hnewlines.queue.spans_tail nofun).toLeft
      refine .set hbehind (.skipNewlines fun mid₄ hskip ↦ ?_)
      have hmid₄ := (hbehind.trans hskip).length_le
      have hmid₃ := hspan.shorter
      refine .call (h.statement mid₄ (by omega)) fun alternative rest halternative ↦ .pure fun _ ↦ ?_
      have hle := hbody.stop_le_start (hbehind.trans hskip) halternative.spans
      refine .node hspan (hbehind.trans hskip) halternative.spans rfl rfl ?_
      rw [hspans.merge_eq hmid hbody]
      exact hrow.append (halternative.rowWithin hle (Nat.le_refl _))
    next => exact .pure fun _ ↦ .node hspans hmid hbody rfl rfl hrow
  next hwhile =>
    refine h.lays_guarded hnext (by rw [hwhile]; nofun) hn
      fun test body mid mid' rest hspans hmid hbody hrow ↦ ?_
    exact .pure fun _ ↦ .node hspans hmid hbody rfl rfl hrow
  next => exact lays_result ts (by omega)
  next =>
    refine .call (h.block ts (by omega)) fun p rest hp ↦ .pure fun _ ↦ ?_
    exact ⟨hp.1, hp.2.laid_of_groups rfl hp.1.marks⟩
  next => exact .failHere nofun hnext
  next => exact .failHere nofun hnext
  next => exact lays_expressionStatement ts (by omega)

theorem block_succ (h : StatementsLaid text n) (ts : List Located)
    (hn : 8 * ts.length + 1 ≤ n + 1) :
    Lays text ts (Grammar.block (n + 1)) ts (Braces text ts) := by
  rw [Grammar.block]
  refine .expect nofun fun start mid hstart ↦ ?_
  have hmid := hstart.shorter
  have hbody := h.blockBody [] (position mid) mid (by omega) (.nil (Nat.le_refl _))
  refine .call hbody fun body mid' hbody ↦ .expect nofun fun stop rest hstop ↦ .pure fun _ ↦ ?_
  obtain ⟨hleft, hrow⟩ := hbody
  refine ⟨hstart.merge hleft hstop, ?_⟩
  rw [hstart.merge_eq hleft hstop]
  refine hrow.mono hstart.start_le_position ?_
  exact Nat.le_trans hstop.start_le hstop.nonempty.le

theorem blockBody_succ (h : StatementsLaid text n) (done : List Stmt) (lo : Nat)
    (ts : List Located) (hn : 8 * ts.length + 6 ≤ n + 1)
    (hrow : Row text lo (position ts) (done.reverse.map .stmt)) :
    Lays text ts (Grammar.blockBody (n + 1) done) ts fun body rest ↦
      Left text ts rest ∧ Row text lo (position rest) (body.map .stmt) := by
  rw [Grammar.blockBody]
  refine .skipSeparators fun mid hskip ↦ .current fun next hnext ↦ ?_
  have hmid := hskip.length_le
  have hhere : Left text ts mid ∧ Row text lo (position mid) (done.reverse.map .stmt) :=
    ⟨hskip, hrow.mono (Nat.le_refl _) hskip.le⟩
  split
  next => exact .pure fun _ ↦ hhere
  next => exact .pure fun _ ↦ hhere
  next =>
    refine .call (h.statement mid (by omega)) fun s rest hs ↦ ?_
    have hrest := hs.spans.shorter
    refine .call (.statementEnd true) fun _ rest' heq ↦ ?_
    subst heq
    refine .last (h.blockBody (s :: done) lo _ (by omega) ?_) fun body rest hbody ↦ ?_
    · rw [List.reverse_cons, List.map_append]
      exact hhere.2.append hs.row
    · exact ⟨(hskip.trans hs.spans.toLeft).trans hbody.1, hbody.2⟩

end StatementsLaid

theorem statementsLaid (text : List Char) (n : Nat) : StatementsLaid text n := by
  induction n with
  | zero => exact .zero
  | succ n ih => exact
    { statement := ih.statement_succ
      block := ih.block_succ
      blockBody := ih.blockBody_succ }

/-! ## Methods -/

theorem lays_parameters {done : List Named} {lo : Nat} {ts : List Located}
    (hn : 8 * ts.length + 1 ≤ n) (hrow : Row text lo (position ts) (done.reverse.map .parameter)) :
    Lays text ts (parameters n done) ts fun names rest ↦
      Left text ts rest ∧ Row text lo (position rest) (names.map .parameter) := by
  induction n generalizing done ts with
  | zero => exact absurd hn (by omega)
  | succ n ih =>
    rw [parameters]
    refine .nextIs fun b ↦ .ofLeft fun hts ↦ .ite (fun _ ↦ .pure fun _ ↦ ⟨hts, hrow⟩) fun _ ↦ ?_
    refine .identifier fun parameter mid hparameter ↦ ?_
    refine .ite (fun _ ↦ .fail_bind (.failAt nofun hts hparameter hparameter.queue.left)) fun _ ↦ ?_
    refine .skipNewlines fun mid' hskip ↦ ?_
    have hplaced : Placed text ts mid (.parameter parameter) := .leaf hparameter rfl
    have hmore : Row text lo (position mid') ((parameter :: done).reverse.map .parameter) := by
      rw [List.reverse_cons, List.map_append]
      exact hrow.append (hplaced.row.mono (Nat.le_refl _) hskip.le)
    refine .accept nofun (fun comma behind hcomma ↦ ?_) (.pure fun hts ↦ ⟨hts, hmore⟩)
    refine .skipNewlines fun mid₃ hskip' ↦ ?_
    have hmid := hparameter.shorter
    have hmid' := hskip.length_le
    have hbehind := hcomma.shorter
    have hmid₃ := hskip'.length_le
    have hbetween := hcomma.toLeft.trans hskip'
    refine .last (ih (by omega) (hmore.mono (Nat.le_refl _) hbetween.le)) fun names rest hnames ↦ ?_
    have hbefore := hparameter.toLeft.trans (hskip.trans hbetween)
    exact ⟨hbefore.trans hnames.1, hnames.2⟩

theorem lays_method : Places text n 0 .method (method n) := by
  intro ts hn
  refine .expect nofun fun start mid hstart ↦ .identifier fun name mid' hname ↦ ?_
  refine .expect nofun fun paren mid₃ hparen ↦ .skipNewlines fun mid₄ hskip ↦ ?_
  have hmid := hstart.shorter
  have hmid' := hname.shorter
  have hmid₃ := hparen.shorter
  have hmid₄ := hskip.length_le
  have hnone : Row text (position mid₄) (position mid₄)
      (([] : List Named).reverse.map .parameter) := .nil (Nat.le_refl _)
  have hnames := lays_parameters (show 8 * mid₄.length + 1 ≤ n by omega) hnone
  refine .call hnames fun names mid₅ hnames ↦ .expect nofun fun stop mid₆ hstop ↦ ?_
  refine .skipNewlines fun mid₇ hskip' ↦ ?_
  obtain ⟨hnamesLeft, hnamesRow⟩ := hnames
  have hmid₅ := hnamesLeft.length_le
  have hmid₆ := hstop.shorter
  have hmid₇ := hskip'.length_le
  refine .call ((statementsLaid text n).block mid₇ (by omega)) fun p rest hp ↦ .pure fun _ ↦ ?_
  obtain ⟨hspan, hbody⟩ := hp
  have hhead := hname.toLeft.trans (hparen.toLeft.trans hskip)
  have hclose := hstop.toLeft.trans hskip'
  refine .node hstart (hhead.trans (hnamesLeft.trans hclose)) hspan rfl rfl ?_
  have hlo := Nat.le_trans hstart.start_le_position hhead.le
  have hhi := Nat.le_trans hclose.le hspan.start_le
  exact (hnamesRow.mono hlo hhi).append hbody

/-! ## Headers -/

theorem lays_nameTail {star : Bool} {name : Named} {ts mid : List Located}
    (hname : Spans text ts mid name.span) (hn : 8 * mid.length + 1 ≤ n) :
    Lays text mid (nameTail star n name) mid fun full rest ↦ Spans text ts rest full.span := by
  induction n generalizing name mid with
  | zero => exact absurd hn (by omega)
  | succ n ih =>
    rw [nameTail]
    refine .accept nofun (fun dot behind hdot ↦ ?_) (.pure fun _ ↦ hname)
    refine .current fun next hnext ↦ .ite (fun hstar ↦ ?_) fun _ ↦ ?_
    · have hne : next.token ≠ .eof := by
        rw [eq_of_beq (Bool.and_eq_true_iff.mp hstar).2]
        nofun
      refine .advance hnext hne fun rest hspans ↦ .pure fun _ ↦ ?_
      exact hspans.widen (hname.toLeft.trans hdot.toLeft) hspans.queue.left
    · refine .identifier fun segment rest hsegment ↦ ?_
      have hbehind := hdot.shorter
      have hrest := hsegment.shorter
      refine .last (ih ?_ (by omega)) fun _ _ ↦ id
      exact hsegment.widen (hname.toLeft.trans hdot.toLeft) hsegment.queue.left

theorem lays_qualifiedName {star : Bool} {ts : List Located} (hn : 8 * ts.length ≤ n) :
    Lays text ts (qualifiedName star n) ts fun full rest ↦ Spans text ts rest full.span := by
  refine .identifier fun name mid hname ↦ ?_
  have hmid := hname.shorter
  exact .last (lays_nameTail hname (by omega)) fun _ _ ↦ id

theorem lays_package : Places text n 0 .package (package n) := by
  intro ts hn
  refine .expect nofun fun start mid hstart ↦ ?_
  have hmid := hstart.shorter
  refine .call (lays_qualifiedName (by omega)) fun name rest hname ↦ .pure fun _ ↦ ?_
  exact .leaf (hstart.merge hstart.queue.left hname) rfl

end Grammar

end BuildScript
