import BuildScript.Proofs.Syntax.TokenQueues

/-!
# Expressions are laid out where they were read

Each function for expressions takes what it reads from the front of the queue, and the node that it
makes has the span from the first thing that it took to the last, parentheses around an operand left
out. So its children make a row between the ends of that span.

The functions recurse on a bound for the depth of their calls. From one token to the next there are
at most eight calls, and of the calls at one token those that come first need the more: that is what
`ExpressionsLaid` asks of the bound, for each function its own number.
-/

namespace BuildScript

namespace Grammar

/-- With the bound `n`, the reader reads nodes from the text, if the bound allows for eight calls at
each token and `c` more. -/
def Places {α : Type} (text : List Char) (n c : Nat) (part : α → Part) (x : GrammarM α) : Prop :=
  ∀ ts, 8 * ts.length + c ≤ n → Lays text ts x ts fun a rest ↦ Placed text ts rest (part a)

/-- What is read behind an expression makes another one of both. -/
def PlacesBehind (text : List Char) (n : Nat) (x : Expr → GrammarM Expr) : Prop :=
  ∀ left ts mid, Placed text ts mid (.expr left) → 8 * mid.length + 1 ≤ n →
    Lays text mid (x left) mid fun e rest ↦ Placed text ts rest (.expr e)

/-- Expressions up to a closing symbol, and the span of that. -/
def Encloses (text : List Char) (lo : Nat) (ts : List Located) (p : List Expr × Span)
    (rest : List Located) : Prop :=
  Spans text ts rest p.2 ∧ Row text lo p.2.start (p.1.map .expr)

/-- The functions for expressions, all with one bound, read nodes from the text. -/
structure ExpressionsLaid (text : List Char) (n : Nat) : Prop where
  expression : Places text n 4 .expr (expression n)
  operation : ∀ level, Places text n 3 .expr (operation n level)
  operationTail : ∀ level, PlacesBehind text n (operationTail n level)
  signed : Places text n 2 .expr (signed n)
  memberTail : PlacesBehind text n (memberTail n)
  primary : Places text n 1 .expr (primary n)
  arguments : ∀ ts, 8 * ts.length + 1 ≤ n →
    Lays text ts (arguments n) ts (Encloses text (position ts) ts)
  elements : ∀ close done lo ts, 8 * ts.length + 5 ≤ n →
    Row text lo (position ts) (done.reverse.map .expr) →
    Lays text ts (elements n close done) ts (Encloses text lo ts)

namespace ExpressionsLaid

variable {text : List Char} {n : Nat}

theorem zero : ExpressionsLaid text 0 where
  expression _ hn := absurd hn (by omega)
  operation _ _ hn := absurd hn (by omega)
  operationTail _ _ _ _ _ hn := absurd hn (by omega)
  signed _ hn := absurd hn (by omega)
  memberTail _ _ _ _ hn := absurd hn (by omega)
  primary _ hn := absurd hn (by omega)
  arguments _ hn := absurd hn (by omega)
  elements _ _ _ _ hn := absurd hn (by omega)

theorem expression_succ (h : ExpressionsLaid text n) :
    Places text (n + 1) 4 .expr (Grammar.expression (n + 1)) := by
  intro ts hn
  rw [Grammar.expression]
  refine .call (h.operation 0 ts (by omega)) fun target mid htarget ↦ .current fun next hnext ↦ ?_
  refine .ite (fun heq ↦ ?_) fun _ ↦ .pure fun _ ↦ htarget
  refine .advance hnext (by rw [eq_of_beq heq]; nofun) fun behind hassign ↦ ?_
  refine .skipNewlines fun mid' hskip ↦ ?_
  have hmid := htarget.spans.shorter
  have hbehind := hassign.shorter
  have hmid' := hskip.length_le
  split
  next name span =>
    refine .call (h.expression mid' (by omega)) fun value rest hvalue ↦ .pure fun _ ↦ ?_
    -- The target is a name of the new node: its span begins the node, and it is no child.
    exact .node_single htarget.spans (hassign.toLeft.trans hskip) hvalue rfl rfl
  next => exact .failAt nofun htarget.spans.toLeft hassign hskip

theorem operation_succ (h : ExpressionsLaid text n) (level : Nat) :
    Places text (n + 1) 3 .expr (Grammar.operation (n + 1) level) := by
  intro ts hn
  rw [Grammar.operation]
  refine .call (h.signed ts (by omega)) fun left mid hleft ↦ ?_
  have hmid := hleft.spans.shorter
  exact .last (h.operationTail level left ts mid hleft (by omega)) fun _ _ ↦ id

theorem operationTail_succ (h : ExpressionsLaid text n) (level : Nat) :
    PlacesBehind text (n + 1) (Grammar.operationTail (n + 1) level) := by
  intro left ts mid hleft hn
  rw [Grammar.operationTail]
  refine .current fun next hnext ↦ ?_
  split
  next op binding hop =>
    refine .ite (fun _ ↦ .pure fun _ ↦ hleft) fun _ ↦ ?_
    refine .advance hnext (ne_eof_of_eq_some hop rfl) fun behind hspans ↦ ?_
    refine .skipNewlines fun mid' hskip ↦ ?_
    have hbehind := hspans.shorter
    have hmid' := hskip.length_le
    refine .call (h.operation _ mid' (by omega)) fun right rest hright ↦ ?_
    have hrest := hright.spans.shorter
    refine .last (h.operationTail level _ ts rest ?_ (by omega)) fun _ _ ↦ id
    have hle := hleft.spans.stop_le_start (hspans.toLeft.trans hskip) hright.spans
    refine .node hleft.spans (hspans.toLeft.trans hskip) hright.spans rfl rfl ?_
    refine .cons (Nat.le_refl _) hleft.spans.nonempty hleft.laid ?_
    exact hright.rowWithin hle (Nat.le_refl _)
  next => exact .pure fun _ ↦ hleft

theorem signed_succ (h : ExpressionsLaid text n) :
    Places text (n + 1) 2 .expr (Grammar.signed (n + 1)) := by
  intro ts hn
  rw [Grammar.signed]
  refine .current fun next hnext ↦ ?_
  split
  next op hop =>
    refine .advance hnext (ne_eof_of_eq_some hop rfl) fun mid hsign ↦ ?_
    have hmid := hsign.shorter
    refine .call (h.signed mid (by omega)) fun operand rest hoperand ↦ .pure fun _ ↦ ?_
    exact .node_single hsign hsign.queue.left hoperand rfl rfl
  next =>
    refine .call (h.primary ts (by omega)) fun e mid he ↦ ?_
    have hmid := he.spans.shorter
    exact .last (h.memberTail e ts mid he (by omega)) fun _ _ ↦ id

theorem memberTail_succ (h : ExpressionsLaid text n) :
    PlacesBehind text (n + 1) (Grammar.memberTail (n + 1)) := by
  intro object ts mid hobject hn
  rw [Grammar.memberTail]
  refine .accept nofun (fun dot behind hdot ↦ ?_) (.pure fun _ ↦ hobject)
  refine .skipNewlines fun mid' hskip ↦ .identifier fun member mid'' hmember ↦ .nextIs fun b ↦ ?_
  have hbehind := hdot.shorter
  have hmid' := hskip.length_le
  have hmid'' := hmember.shorter
  have hfar := hdot.toLeft.trans hskip
  refine .ite (fun _ ↦ ?_) fun _ ↦ ?_
  · refine .call (h.arguments mid'' (by omega)) fun p rest hp ↦ ?_
    obtain ⟨hstop, hrow⟩ := hp
    have hrest := hstop.shorter
    refine .last (h.memberTail _ ts rest ?_ (by omega)) fun _ _ ↦ id
    have hle := hobject.spans.stop_le_start hfar hmember
    -- The name of the method is between the receiver and the arguments, and no child.
    refine .node hobject.spans (hfar.trans hmember.toLeft) hstop rfl rfl ?_
    refine .cons (Nat.le_refl _) hobject.spans.nonempty hobject.laid (hrow.mono ?_ hstop.nonempty.le)
    have hmember' := hmember.stop_le
    have hpos := hmember.nonempty
    omega
  · refine .last (h.memberTail _ ts mid'' ?_ (by omega)) fun _ _ ↦ id
    refine .node hobject.spans hfar hmember rfl rfl ?_
    have hle := hobject.spans.stop_le_start hfar hmember
    have hpos := hmember.nonempty
    exact hobject.rowWithin (Nat.le_refl _) (by omega)

theorem primary_succ (h : ExpressionsLaid text n) :
    Places text (n + 1) 1 .expr (Grammar.primary (n + 1)) := by
  intro ts hn
  rw [Grammar.primary]
  refine .current fun next hnext ↦ ?_
  split
  next value hvalue =>
    refine .advance hnext (ne_eof_of_eq_some hvalue rfl) fun rest hspans ↦ .pure fun _ ↦ ?_
    exact .leaf hspans rfl
  next =>
    split
    next name hname =>
      refine .advance hnext (by rw [hname]; nofun) fun mid hspans ↦ .nextIs fun b ↦ ?_
      have hmid := hspans.shorter
      refine .ite (fun _ ↦ ?_) fun _ ↦ .pure fun _ ↦ .leaf hspans rfl
      refine .call (h.arguments mid (by omega)) fun p rest hp ↦ .pure fun _ ↦ ?_
      obtain ⟨hstop, hrow⟩ := hp
      refine .node hspans hspans.queue.left hstop rfl rfl (hrow.mono ?_ hstop.nonempty.le)
      exact hspans.start_le_position
    next hparen =>
      refine .advance hnext (by rw [hparen]; nofun) fun behind hspans ↦ ?_
      refine .skipNewlines fun mid hskip ↦ ?_
      have hbehind := hspans.shorter
      have hmid := hskip.length_le
      refine .call (h.expression mid (by omega)) fun e mid' he ↦ .skipNewlines fun mid'' hskip' ↦ ?_
      refine .expect nofun fun stop rest hstop ↦ .pure fun _ ↦ ?_
      -- The node keeps its span: the parentheses belong to what was read, but to no node.
      exact he.widen (hspans.toLeft.trans hskip) (hskip'.trans hstop.toLeft)
    next hbracket =>
      refine .advance hnext (by rw [hbracket]; nofun) fun behind hspans ↦ ?_
      refine .skipNewlines fun mid hskip ↦ ?_
      have hbehind := hspans.shorter
      have hmid := hskip.length_le
      have hlist := h.elements .rightBracket [] (position mid) mid (by omega) (.nil (Nat.le_refl _))
      refine .call hlist fun p rest hp ↦ .pure fun _ ↦ ?_
      obtain ⟨hstop, hrow⟩ := hp
      refine .node hspans hskip hstop rfl rfl (hrow.mono ?_ hstop.nonempty.le)
      exact Nat.le_trans hspans.start_le_position hskip.le
    next => exact .unexpected

theorem arguments_succ (h : ExpressionsLaid text n) (ts : List Located)
    (hn : 8 * ts.length + 1 ≤ n + 1) :
    Lays text ts (Grammar.arguments (n + 1)) ts (Encloses text (position ts) ts) := by
  rw [Grammar.arguments]
  refine .expect nofun fun paren behind hparen ↦ .skipNewlines fun mid hskip ↦ ?_
  have hbehind := hparen.shorter
  have hmid := hskip.length_le
  have hlist := h.elements .rightParen [] (position mid) mid (by omega) (.nil (Nat.le_refl _))
  refine .last hlist fun p rest hp ↦ ?_
  have hbefore := hparen.toLeft.trans hskip
  exact ⟨hp.1.widen hbefore hp.1.queue.left, hp.2.mono hbefore.le (Nat.le_refl _)⟩

/-- The closing symbol behind the elements. -/
theorem encloses_close {close : Symbol} {done : List Expr} {lo : Nat} {start ts mid : List Located}
    (hrow : Row text lo (position mid) (done.reverse.map .expr)) (hmid : Left text ts mid) :
    Lays text start (do return (done.reverse, ← expect (.symbol close))) mid
      (Encloses text lo ts) := by
  refine .expect nofun fun stop rest hstop ↦ .pure fun _ ↦ ⟨hstop.widen hmid hstop.queue.left, ?_⟩
  exact hrow.mono (Nat.le_refl _) hstop.start_le

theorem elements_succ (h : ExpressionsLaid text n) (close : Symbol) (done : List Expr) (lo : Nat)
    (ts : List Located) (hn : 8 * ts.length + 5 ≤ n + 1)
    (hrow : Row text lo (position ts) (done.reverse.map .expr)) :
    Lays text ts (Grammar.elements (n + 1) close done) ts (Encloses text lo ts) := by
  rw [Grammar.elements]
  refine .nextIs fun b ↦ .ite (fun _ ↦ .ofLeft fun hts ↦ encloses_close hrow hts) fun _ ↦ ?_
  refine .call (h.expression ts (by omega)) fun e mid he ↦ .skipNewlines fun mid' hskip ↦ ?_
  have hmid := he.spans.shorter
  have hmid' := hskip.length_le
  have hbefore := he.spans.toLeft.trans hskip
  have hmore : Row text lo (position mid') ((e :: done).reverse.map .expr) := by
    rw [List.reverse_cons, List.map_append]
    exact hrow.append (he.row.mono (Nat.le_refl _) hskip.le)
  refine .accept nofun (fun comma behind hcomma ↦ ?_) (encloses_close hmore hbefore)
  refine .skipNewlines fun mid'' hskip' ↦ ?_
  have hbehind := hcomma.shorter
  have hmid'' := hskip'.length_le
  have hcomma' := hcomma.toLeft.trans hskip'
  refine .last (h.elements close (e :: done) lo mid'' (by omega) ?_) fun p rest hp ↦ ?_
  · exact hmore.mono (Nat.le_refl _) hcomma'.le
  · exact ⟨hp.1.widen (hbefore.trans hcomma') hp.1.queue.left, hp.2⟩

end ExpressionsLaid

theorem expressionsLaid (text : List Char) (n : Nat) : ExpressionsLaid text n := by
  induction n with
  | zero => exact .zero
  | succ n ih => exact
    { expression := ih.expression_succ
      operation := ih.operation_succ
      operationTail := ih.operationTail_succ
      signed := ih.signed_succ
      memberTail := ih.memberTail_succ
      primary := ih.primary_succ
      arguments := ih.arguments_succ
      elements := ih.elements_succ }

end Grammar

end BuildScript
