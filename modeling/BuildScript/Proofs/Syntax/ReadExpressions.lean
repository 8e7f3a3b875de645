import BuildScript.Proofs.Syntax.Reading
import BuildScript.Proofs.Syntax.Rendering

/-!
# Reading expressions back

Each function of the grammar for expressions reads back what is rendered for its level. What follows
the expression matters: a token behind it that could continue it would be read as well. So the
functions that end in a loop over what follows are told with a continuation: reading an operand
comes to what the loop does behind it.

The bound for the depth of calls is never reached. Eight levels for each token to be read, and a few
more that depend on the function, are enough, since no function calls more than three others in a
row before a token is consumed.
-/

namespace BuildScript

open Grammar

/-- The two are the same but for their places. -/
def Expr.Same (e e' : Expr) : Prop := e'.eraseSpans = e.eraseSpans

def Expr.AllSame (es es' : List Expr) : Prop := Expr.eraseAllSpans es' = Expr.eraseAllSpans es

/-! ## What may follow -/

/-- Whether an operand in front of the token is complete. -/
def Token.endsOperand (t : Token) : Bool := t != .symbol .dot && t != .symbol .leftParen

/-- Whether an expression in front of the token is complete. -/
def Token.endsExpression (t : Token) : Bool :=
  t.endsOperand && (operator? t).isNone && t != .symbol .assign

namespace Token

variable {t : Token}

theorem endsOperand_iff : t.endsOperand = true ↔ t ≠ .symbol .dot ∧ t ≠ .symbol .leftParen := by
  simp [endsOperand]

theorem endsExpression_iff :
    t.endsExpression = true ↔
      t.endsOperand = true ∧ operator? t = none ∧ t ≠ .symbol .assign := by
  simp [endsExpression, and_assoc]

theorem ne_newline_of_startsExpression (h : t.startsExpression = true) : t ≠ .newline := by
  rintro rfl
  cases h

end Token

theorem operator?_symbol (op : BinaryOp) : operator? (.symbol op.symbol) = some (op, op.level) := by
  cases op <;> rfl

theorem endsOperand_symbol (op : BinaryOp) : (Token.symbol op.symbol).endsOperand = true := by
  cases op <;> rfl

theorem BinaryOp.level_pos (op : BinaryOp) : 0 < op.level := by cases op <;> decide

theorem BinaryOp.level_le (op : BinaryOp) : op.level ≤ 6 := by cases op <;> decide

theorem Expr.level_le (e : Expr) : e.level ≤ 8 := by
  cases e with
  | binary op => exact Nat.le_trans op.level_le (by decide)
  | _ => simp [level]

/-! ## The loops stop -/

section

variable {α : Type} {t : Token} {rest : List Token} {n level : Nat} {e : Expr} {Q : Expr → Prop}

theorem reads_operationTail_stop (hn : 0 < n)
    (ht : ∀ op binding, operator? t = some (op, binding) → binding < level) (he : Q e) :
    Reads (operationTail n level e) (t :: rest) (t :: rest) Q := by
  obtain ⟨n, rfl⟩ := Nat.exists_eq_add_of_le' hn
  rw [operationTail]
  refine reads_current.bind fun next hnext ↦ ?_
  rw [hnext]
  split
  next op binding hop => exact .ite_pos (ht op binding hop) (.pure he)
  next => exact .pure he

theorem reads_memberTail_stop (hn : 0 < n) (ht : t ≠ .symbol .dot) (he : Q e) :
    Reads (memberTail n e) (t :: rest) (t :: rest) Q := by
  obtain ⟨n, rfl⟩ := Nat.exists_eq_add_of_le' hn
  rw [memberTail]
  refine (reads_accept_ne ht).bind fun found hfound ↦ ?_
  subst hfound
  exact .ite_neg Bool.false_ne_true (.pure he)

end

/-! ## Reading one expression -/

namespace Expr

/-- `expression` reads the expression back. -/
def ReadsExpression (e : Expr) : Prop :=
  ∀ {t : Token} {rest : List Token} {n : Nat}, t.endsExpression = true →
    8 * (e.tokens ++ t :: rest).length + 4 ≤ n →
    Reads (expression n) (e.tokens ++ t :: rest) (t :: rest) e.Same

/-- In a place for expressions of the level, `operation` reads the expression back and goes on with
the operators behind it, of which the first one binds no more tightly than the place. -/
def ReadsOperation (e : Expr) (level : Nat) : Prop :=
  ∀ {t : Token} {rest after : List Token} {n least : Nat} {Q : Expr → Prop}, least ≤ level →
    t.endsOperand = true → (∀ op binding, operator? t = some (op, binding) → binding ≤ level) →
    8 * (e.tokensAt level ++ t :: rest).length + 3 ≤ n →
    (∀ m left, e.Same left → 8 * (t :: rest).length + 1 ≤ m →
      Reads (operationTail m least left) (t :: rest) after Q) →
    Reads (operation n least) (e.tokensAt level ++ t :: rest) after Q

/-- In a place for operands of unary operators, `signed` reads the expression back. -/
def ReadsSigned (e : Expr) : Prop :=
  ∀ {t : Token} {rest : List Token} {n : Nat}, t.endsOperand = true →
    8 * (e.tokensAt 7 ++ t :: rest).length + 2 ≤ n →
    Reads (signed n) (e.tokensAt 7 ++ t :: rest) (t :: rest) e.Same

/-- In a place for receivers, `signed` reads the expression back and goes on with the members
behind it. -/
def ReadsMember (e : Expr) : Prop :=
  ∀ {t : Token} {rest after : List Token} {n : Nat} {Q : Expr → Prop}, t ≠ .symbol .leftParen →
    8 * (e.tokensAt 8 ++ t :: rest).length + 2 ≤ n →
    (∀ m object, e.Same object → 8 * (t :: rest).length + 1 ≤ m →
      Reads (memberTail m object) (t :: rest) after Q) →
    Reads (signed n) (e.tokensAt 8 ++ t :: rest) after Q

/-- All functions for expressions read the expression back in the places they read. -/
structure Readable (e : Expr) : Prop where
  expression : e.ReadsExpression
  operation : ∀ level, 0 < level → level ≤ 7 → e.ReadsOperation level
  signed : e.ReadsSigned
  member : e.ReadsMember

variable {e : Expr} {level : Nat}

theorem tokensAt_of_le (h : level ≤ e.level) : e.tokensAt level = e.tokens := by
  rw [tokensAt, if_neg (Nat.not_lt.mpr h)]

theorem tokensAt_of_lt (h : e.level < level) : e.tokensAt level = parenthesize e.tokens := by
  rw [tokensAt, if_pos h]

theorem reads_skipNewlines_tokens (e : Expr) (more : List Token) :
    Reads skipNewlines (e.tokens ++ more) (e.tokens ++ more) fun _ ↦ True := by
  obtain ⟨first, rest, hfirst, hstarts⟩ := e.exists_head_tokens
  rw [hfirst]
  exact reads_skipNewlines (Token.ne_newline_of_startsExpression hstarts)

theorem reads_skipNewlines_tokensAt (e : Expr) (level : Nat) (more : List Token) :
    Reads skipNewlines (e.tokensAt level ++ more) (e.tokensAt level ++ more) fun _ ↦ True := by
  rw [tokensAt]
  split
  · exact reads_skipNewlines (by decide)
  · exact e.reads_skipNewlines_tokens more

/-- Behind a token that is no sign, `signed` reads a primary expression and its members. -/
theorem reads_signed_of_primary (P : Expr → Prop) {t : Token} {ts mid after : List Token} {n : Nat}
    {Q : Expr → Prop} (ht : signOperator? t = none) (hprimary : Reads (primary n) (t :: ts) mid P)
    (htail : ∀ e, P e → Reads (memberTail n e) mid after Q) :
    Reads (Grammar.signed (n + 1)) (t :: ts) after Q := by
  rw [Grammar.signed]
  refine reads_current.bind fun next hnext ↦ ?_
  rw [hnext, ht]
  exact hprimary.bind htail

/-- In parentheses, an expression is a receiver. -/
theorem readsMember_of_readsExpression (h : e.ReadsExpression) (hlevel : e.level < 8) :
    e.ReadsMember := by
  intro t rest after n Q ht hn htail
  rw [tokensAt_of_lt hlevel, parenthesize] at hn ⊢
  simp only [List.cons_append, List.append_assoc, List.nil_append, List.length_cons,
    List.length_append] at hn ⊢
  obtain ⟨n, rfl⟩ := Nat.exists_eq_add_of_le' (show 2 ≤ n by omega)
  refine reads_signed_of_primary e.Same rfl ?_ fun object hobject ↦ htail _ object hobject ?_
  · rw [primary]
    refine reads_current.bind fun next hnext ↦ ?_
    rw [hnext]
    refine reads_advance.seq fun _ ↦ (e.reads_skipNewlines_tokens _).seq fun _ ↦ ?_
    refine (h rfl ?_).bind fun e' he' ↦ ?_
    · simp only [List.length_append, List.length_cons]
      omega
    · exact (reads_skipNewlines (by decide)).seq fun _ ↦ reads_expect.seq fun _ ↦ .pure he'
  · simp only [List.length_cons]
    omega

/-- A receiver with no member behind it is an operand. -/
theorem readsSigned_of_readsMember (h : e.ReadsMember) (hlevel : e.level ≠ 7) : e.ReadsSigned := by
  intro t rest n ht hn
  have heq : e.tokensAt 7 = e.tokensAt 8 := by
    have := e.level_le
    rcases Nat.lt_or_ge e.level 7 with hlt | hge
    · rw [tokensAt_of_lt hlt, tokensAt_of_lt (by omega)]
    · rw [tokensAt_of_le hge, tokensAt_of_le (by omega)]
  obtain ⟨hdot, hparen⟩ := Token.endsOperand_iff.mp ht
  rw [heq] at hn ⊢
  exact h hparen hn fun m object hobject hm ↦ reads_memberTail_stop (by omega) hdot hobject

/-- An operand of a unary operator is one of a binary operator. -/
theorem readsOperation_of_readsSigned (h : e.ReadsSigned) (hlevel : level ≤ 7)
    (he : 7 ≤ e.level ∨ e.level < level) : e.ReadsOperation level := by
  intro t rest after n least Q hleast ht hbinding hn htail
  have heq : e.tokensAt level = e.tokensAt 7 := by
    rcases he with hge | hlt
    · rw [tokensAt_of_le hge, tokensAt_of_le (by omega)]
    · rw [tokensAt_of_lt hlt, tokensAt_of_lt (by omega)]
  rw [heq] at hn ⊢
  obtain ⟨n, rfl⟩ := Nat.exists_eq_add_of_le' (show 1 ≤ n by omega)
  rw [Grammar.operation]
  refine (h ht (by omega)).bind fun left hleft ↦ htail n left hleft ?_
  simp only [List.length_append, List.length_cons] at hn ⊢
  omega

/-- An operation with no assignment behind it is an expression. -/
theorem readsExpression_of_readsOperation (h : e.ReadsOperation 1) (hlevel : 0 < e.level) :
    e.ReadsExpression := by
  intro t rest n ht hn
  obtain ⟨hoperand, hoperator, hassign⟩ := Token.endsExpression_iff.mp ht
  have hstop : ∀ op binding, operator? t ≠ some (op, binding) := by
    intro op binding hop
    rw [hoperator] at hop
    cases hop
  obtain ⟨n, rfl⟩ := Nat.exists_eq_add_of_le' (show 1 ≤ n by omega)
  rw [Grammar.expression]
  have htokens : e.tokensAt 1 = e.tokens := tokensAt_of_le hlevel
  have hoperation : Reads (Grammar.operation n 0) (e.tokens ++ t :: rest) (t :: rest) e.Same := by
    rw [← htokens] at hn ⊢
    refine h (Nat.zero_le 1) hoperand (fun op binding hop ↦ absurd hop (hstop op binding))
      (by omega) fun m left hleft hm ↦ ?_
    exact reads_operationTail_stop (by omega) (fun op binding hop ↦ absurd hop (hstop op binding))
      hleft
  refine hoperation.bind fun target htarget ↦ reads_current.bind fun next hnext ↦ ?_
  exact .ite_neg (by simpa [hnext] using hassign) (.pure htarget)

/-! ## From the own level to all places -/

namespace Readable

theorem of_member (h : e.ReadsMember) (hlevel : e.level = 8) : e.Readable := by
  have hsigned : e.ReadsSigned := readsSigned_of_readsMember h (by omega)
  have hoperation (level : Nat) (hle : level ≤ 7) : e.ReadsOperation level :=
    readsOperation_of_readsSigned hsigned hle (.inl (by omega))
  exact
    { expression := readsExpression_of_readsOperation (hoperation 1 (by decide)) (by omega)
      operation := fun level _ hle ↦ hoperation level hle
      signed := hsigned
      member := h }

theorem of_signed (h : e.ReadsSigned) (hlevel : e.level = 7) : e.Readable := by
  have hoperation (level : Nat) (hle : level ≤ 7) : e.ReadsOperation level :=
    readsOperation_of_readsSigned h hle (.inl (by omega))
  have hexpression : e.ReadsExpression :=
    readsExpression_of_readsOperation (hoperation 1 (by decide)) (by omega)
  exact
    { expression := hexpression
      operation := fun level _ hle ↦ hoperation level hle
      signed := h
      member := readsMember_of_readsExpression hexpression (by omega) }

theorem of_operation (h : ∀ level, level ≤ e.level → e.ReadsOperation level)
    (hpos : 0 < e.level) (hlevel : e.level < 7) : e.Readable := by
  have hexpression : e.ReadsExpression := readsExpression_of_readsOperation (h 1 hpos) hpos
  have hmember : e.ReadsMember := readsMember_of_readsExpression hexpression (by omega)
  have hsigned : e.ReadsSigned := readsSigned_of_readsMember hmember (by omega)
  refine ⟨hexpression, fun level _ hle ↦ ?_, hsigned, hmember⟩
  rcases Nat.lt_or_ge e.level level with hlt | hge
  · exact readsOperation_of_readsSigned hsigned hle (.inr hlt)
  · exact h level hge

theorem of_expression (h : e.ReadsExpression) (hlevel : e.level = 0) : e.Readable := by
  have hmember : e.ReadsMember := readsMember_of_readsExpression h (by omega)
  have hsigned : e.ReadsSigned := readsSigned_of_readsMember hmember (by omega)
  exact
    { expression := h
      operation := fun level hpos hle ↦ readsOperation_of_readsSigned hsigned hle (.inr (by omega))
      signed := hsigned
      member := hmember }

end Readable

/-! ## Primary expressions and members -/

theorem readable_constant {value : Literal} {span : Span} : (constant value span).Readable := by
  refine .of_member (fun {t rest after n Q} ht hn htail ↦ ?_) rfl
  rw [tokensAt_of_le (Nat.le_refl 8), tokens] at hn ⊢
  simp only [List.cons_append, List.nil_append, List.length_cons] at hn ⊢
  obtain ⟨n, rfl⟩ := Nat.exists_eq_add_of_le' (show 2 ≤ n by omega)
  have hliteral : literal? value.token = some value := by
    cases value with
    | bool b => cases b <;> rfl
    | _ => rfl
  have hsign : signOperator? value.token = none := by
    cases value with
    | bool b => cases b <;> rfl
    | _ => rfl
  refine reads_signed_of_primary (constant value span).Same hsign ?_
    fun object hobject ↦ htail _ object hobject ?_
  · rw [primary]
    refine reads_current.bind fun next hnext ↦ ?_
    rw [hnext, hliteral]
    exact reads_advance.seq fun _ ↦ .pure rfl
  · simp only [List.length_cons]
    omega

theorem readable_var {name : String} {span : Span} : (var name span).Readable := by
  refine .of_member (fun {t rest after n Q} ht hn htail ↦ ?_) rfl
  rw [tokensAt_of_le (Nat.le_refl 8), tokens] at hn ⊢
  simp only [List.cons_append, List.nil_append, List.length_cons] at hn ⊢
  obtain ⟨n, rfl⟩ := Nat.exists_eq_add_of_le' (show 2 ≤ n by omega)
  refine reads_signed_of_primary (var name span).Same rfl ?_
    fun object hobject ↦ htail _ object hobject ?_
  · rw [primary]
    refine reads_current.bind fun next hnext ↦ ?_
    rw [hnext]
    refine reads_advance.seq fun _ ↦ reads_nextIs.bind fun found hfound ↦ .ite_neg ?_ (.pure rfl)
    simpa [hfound] using ht
  · simp only [List.length_cons]
    omega

theorem readable_property {object : Expr} {name : String} {span : Span}
    (hobject : object.Readable) : (property object name span).Readable := by
  refine .of_member (fun {t rest after n Q} ht hn htail ↦ ?_) rfl
  rw [tokensAt_of_le (Nat.le_refl 8), tokens, ← tokensAt] at hn ⊢
  simp only [List.append_assoc, List.cons_append, List.nil_append] at hn ⊢
  refine hobject.member (by decide) hn fun m object' hobject' hm ↦ ?_
  simp only [List.length_cons] at hm
  obtain ⟨m, rfl⟩ := Nat.exists_eq_add_of_le' (show 1 ≤ m by omega)
  rw [memberTail]
  refine reads_accept_self.bind fun found hfound ↦ .ite_pos hfound ?_
  refine (reads_skipNewlines (by simp)).seq fun _ ↦ reads_identifier.bind fun member hmember ↦ ?_
  refine reads_nextIs.bind fun paren hparen ↦ .ite_neg (by simpa [hparen] using ht) (htail m _ ?_ ?_)
  · rw [Same, eraseSpans, eraseSpans, hobject', hmember]
  · simp only [List.length_cons]
    omega

/-! ## Expressions in brackets -/

def AllReadable (es : List Expr) : Prop := ∀ e ∈ es, e.Readable

section Brackets

variable {close : Symbol}

/-- The brackets that close a list of expressions. -/
def Closes (close : Symbol) : Prop := close = .rightParen ∨ close = .rightBracket

theorem Closes.endsExpression (h : Closes close) : (Token.symbol close).endsExpression = true := by
  rcases h with rfl | rfl <;> rfl

theorem Closes.ne_comma (h : Closes close) : Token.symbol close ≠ .symbol .comma := by
  rcases h with rfl | rfl <;> decide

theorem Closes.startsExpression (h : Closes close) :
    (Token.symbol close).startsExpression = false := by
  rcases h with rfl | rfl <;> rfl

/-- No expression begins with a closing bracket. -/
theorem reads_nextIs_close (h : Closes close) (e : Expr) (more : List Token) :
    Reads (nextIs (.symbol close)) (e.tokens ++ more) (e.tokens ++ more) (· = false) := by
  obtain ⟨first, rest, hfirst, hstarts⟩ := e.exists_head_tokens
  rw [hfirst]
  refine reads_nextIs.mono fun found hfound ↦ ?_
  rw [hfound, beq_eq_false_iff_ne]
  rintro rfl
  rw [h.startsExpression] at hstarts
  cases hstarts

theorem reads_skipNewlines_elements (es : List Expr) (rest : List Token) :
    Reads skipNewlines (tokensOfAll es ++ .symbol close :: rest)
      (tokensOfAll es ++ .symbol close :: rest) fun _ ↦ True := by
  match es with
  | [] => exact reads_skipNewlines (by simp)
  | [e] => exact e.reads_skipNewlines_tokens _
  | e :: next :: es =>
    rw [tokensOfAll, List.append_assoc]
    exact e.reads_skipNewlines_tokens _

/-- `elements` reads expressions back up to the bracket that closes them. -/
theorem reads_elements (h : Closes close) (es done : List Expr) {rest : List Token} {n : Nat}
    (hes : AllReadable es) (hn : 8 * (tokensOfAll es ++ .symbol close :: rest).length + 5 ≤ n) :
    Reads (elements n close done) (tokensOfAll es ++ .symbol close :: rest) rest
      fun p ↦ ∃ es', p.1 = done.reverse ++ es' ∧ AllSame es es' := by
  obtain ⟨n, rfl⟩ := Nat.exists_eq_add_of_le' (show 1 ≤ n by omega)
  rw [elements]
  match es with
  | [] =>
    refine reads_nextIs.bind fun found hfound ↦ .ite_pos (by simp [hfound]) ?_
    exact reads_expect.seq fun _ ↦ .pure ⟨[], (List.append_nil _).symm, rfl⟩
  | [e] =>
    rw [tokensOfAll] at hn ⊢
    refine (reads_nextIs_close h e _).bind fun found hfound ↦ .ite_neg (by simp [hfound]) ?_
    refine ((hes e List.mem_cons_self).expression h.endsExpression (by omega)).bind fun e' he' ↦ ?_
    refine (reads_skipNewlines (by simp)).seq fun _ ↦ (reads_accept_ne h.ne_comma).bind
      fun more hmore ↦ .ite_neg (by simp [hmore]) (reads_expect.seq fun _ ↦ .pure ⟨[e'], ?_, ?_⟩)
    · rw [List.reverse_cons]
    · rw [AllSame, eraseAllSpans, eraseAllSpans, eraseAllSpans, eraseAllSpans, he']
  | e :: next :: es =>
    rw [tokensOfAll] at hn ⊢
    simp only [List.append_assoc, List.cons_append] at hn ⊢
    refine (reads_nextIs_close h e _).bind fun found hfound ↦ .ite_neg (by simp [hfound]) ?_
    refine ((hes e List.mem_cons_self).expression rfl (by omega)).bind fun e' he' ↦ ?_
    refine (reads_skipNewlines (by simp)).seq fun _ ↦ reads_accept_self.bind fun more hmore ↦ ?_
    have hrest : Reads (elements n close (e' :: done))
        (tokensOfAll (next :: es) ++ .symbol close :: rest) rest
        fun p ↦ ∃ es', p.1 = (e' :: done).reverse ++ es' ∧ AllSame (next :: es) es' := by
      refine reads_elements h (next :: es) (e' :: done)
        (fun e he ↦ hes e (List.mem_cons_of_mem _ he)) ?_
      simp only [List.length_append, List.length_cons] at hn ⊢
      omega
    refine .ite_pos hmore ((reads_skipNewlines_elements (next :: es) rest).seq fun _ ↦
      hrest.mono ?_)
    rintro p ⟨es', hp, hes'⟩
    refine ⟨e' :: es', by simp [hp], ?_⟩
    rw [AllSame, eraseAllSpans, he', hes']
    rfl

end Brackets

theorem reads_nextIs_parenthesize (ts more : List Token) :
    Reads (nextIs (.symbol .leftParen)) (parenthesize ts ++ more) (parenthesize ts ++ more)
      (· = true) :=
  reads_nextIs.mono fun found hfound ↦ by simpa using hfound

/-- `arguments` reads the arguments of a call back. -/
theorem reads_arguments {es : List Expr} {rest : List Token} {n : Nat} (hes : AllReadable es)
    (hn : 8 * (parenthesize (tokensOfAll es) ++ rest).length ≤ n) :
    Reads (arguments n) (parenthesize (tokensOfAll es) ++ rest) rest fun p ↦ AllSame es p.1 := by
  rw [parenthesize] at hn ⊢
  simp only [List.cons_append, List.append_assoc, List.nil_append, List.length_cons] at hn ⊢
  obtain ⟨n, rfl⟩ := Nat.exists_eq_add_of_le' (show 1 ≤ n by omega)
  rw [arguments]
  refine reads_expect.seq fun _ ↦ (reads_skipNewlines_elements es rest).seq fun _ ↦ ?_
  refine (reads_elements (.inl rfl) es [] hes (by omega)).mono ?_
  rintro p ⟨es', hp, hes'⟩
  rw [hp]
  exact hes'

theorem readable_call {name : String} {arguments : List Expr} {span : Span}
    (harguments : AllReadable arguments) : (call name arguments span).Readable := by
  refine .of_member (fun {t rest after n Q} ht hn htail ↦ ?_) rfl
  rw [tokensAt_of_le (Nat.le_refl 8), tokens] at hn ⊢
  simp only [List.cons_append, List.length_cons] at hn ⊢
  obtain ⟨n, rfl⟩ := Nat.exists_eq_add_of_le' (show 2 ≤ n by omega)
  refine reads_signed_of_primary (call name arguments span).Same rfl ?_
    fun object hobject ↦ htail _ object hobject ?_
  · rw [primary]
    refine reads_current.bind fun next hnext ↦ ?_
    rw [hnext]
    refine reads_advance.seq fun _ ↦ (reads_nextIs_parenthesize _ _).bind fun found hfound ↦ ?_
    refine .ite_pos hfound ?_
    refine (reads_arguments harguments (by omega)).bind fun p hp ↦ .pure ?_
    rw [Same, eraseSpans, eraseSpans, hp]
  · simp only [List.length_append, List.length_cons] at hn ⊢
    omega

theorem readable_invoke {receiver : Expr} {name : String} {arguments : List Expr} {span : Span}
    (hreceiver : receiver.Readable) (harguments : AllReadable arguments) :
    (invoke receiver name arguments span).Readable := by
  refine .of_member (fun {t rest after n Q} ht hn htail ↦ ?_) rfl
  rw [tokensAt_of_le (Nat.le_refl 8), tokens, ← tokensAt] at hn ⊢
  simp only [List.append_assoc, List.cons_append] at hn ⊢
  refine hreceiver.member (by decide) hn fun m receiver' hreceiver' hm ↦ ?_
  simp only [List.length_cons] at hm
  obtain ⟨m, rfl⟩ := Nat.exists_eq_add_of_le' (show 1 ≤ m by omega)
  rw [memberTail]
  refine reads_accept_self.bind fun found hfound ↦ .ite_pos hfound ?_
  refine (reads_skipNewlines (by simp)).seq fun _ ↦ reads_identifier.bind fun member hmember ↦ ?_
  refine (reads_nextIs_parenthesize _ _).bind fun paren hparen ↦ .ite_pos hparen ?_
  refine (reads_arguments harguments (by omega)).bind fun p hp ↦ htail m _ ?_ ?_
  · rw [Same, eraseSpans, eraseSpans, hreceiver', hmember, hp]
  · simp only [List.length_append, List.length_cons] at hm ⊢
    omega

theorem readable_list {elements : List Expr} {span : Span} (helements : AllReadable elements) :
    (list elements span).Readable := by
  refine .of_member (fun {t rest after n Q} ht hn htail ↦ ?_) rfl
  rw [tokensAt_of_le (Nat.le_refl 8), tokens] at hn ⊢
  simp only [List.cons_append, List.append_assoc, List.nil_append, List.length_cons] at hn ⊢
  obtain ⟨n, rfl⟩ := Nat.exists_eq_add_of_le' (show 2 ≤ n by omega)
  refine reads_signed_of_primary (list elements span).Same rfl ?_
    fun object hobject ↦ htail _ object hobject ?_
  · rw [primary]
    refine reads_current.bind fun next hnext ↦ ?_
    rw [hnext]
    refine reads_advance.seq fun _ ↦ (reads_skipNewlines_elements elements _).seq fun _ ↦ ?_
    refine (reads_elements (.inr rfl) elements [] helements (by omega)).bind fun p hp ↦ .pure ?_
    obtain ⟨es', hp, hes'⟩ := hp
    rw [Same, eraseSpans, eraseSpans, hp, List.reverse_nil, List.nil_append, hes']
  · simp only [List.length_append, List.length_cons] at hn ⊢
    omega

/-! ## Operators -/

theorem readable_assign {target : String} {value : Expr} {span : Span} (hvalue : value.Readable) :
    (assign target value span).Readable := by
  refine .of_expression (fun {t rest n} ht hn ↦ ?_) rfl
  rw [tokens] at hn ⊢
  simp only [List.cons_append, List.length_cons] at hn ⊢
  obtain ⟨n, rfl⟩ := Nat.exists_eq_add_of_le' (show 4 ≤ n by omega)
  -- The target is read as an operation that the assignment sign ends.
  have htarget : Reads (Grammar.operation (n + 3) 0)
      (.identifier target :: .symbol .assign :: (value.tokens ++ t :: rest))
      (.symbol .assign :: (value.tokens ++ t :: rest)) (var target span).Same := by
    have hvar : (var target span).Readable := readable_var
    refine hvar.operation 1 (by decide) (by decide) (Nat.zero_le 1) rfl
      (fun op binding hop ↦ nomatch hop) ?_ fun m left hleft hm ↦ ?_
    · rw [tokensAt_of_le (Nat.le_add_left 1 7), tokens]
      simp only [List.singleton_append, List.length_cons]
      omega
    · exact reads_operationTail_stop (by omega) (fun op binding hop ↦ nomatch hop) hleft
  rw [Grammar.expression]
  refine htarget.bind fun e he ↦ reads_current.bind fun next hnext ↦ .ite_pos (by simp [hnext]) ?_
  obtain ⟨place, rfl⟩ : ∃ place, e = var target place := by
    cases e <;> simp [Same, eraseSpans] at he
    exact ⟨_, by rw [he]⟩
  refine reads_advance.seq fun _ ↦ (value.reads_skipNewlines_tokens _).seq fun _ ↦ ?_
  refine (hvalue.expression ht (by omega)).bind fun value' hvalue' ↦ .pure ?_
  rw [Same, eraseSpans, eraseSpans, hvalue']

theorem readable_unary {op : UnaryOp} {operand : Expr} {span : Span} (hoperand : operand.Readable) :
    (unary op operand span).Readable := by
  refine .of_signed (fun {t rest n} ht hn ↦ ?_) rfl
  rw [tokensAt_of_le (Nat.le_refl 7), tokens, ← tokensAt] at hn ⊢
  simp only [List.cons_append, List.length_cons] at hn ⊢
  obtain ⟨n, rfl⟩ := Nat.exists_eq_add_of_le' (show 1 ≤ n by omega)
  rw [Grammar.signed]
  refine reads_current.bind fun next hnext ↦ ?_
  have hsign : signOperator? (.symbol op.symbol) = some op := by cases op <;> rfl
  rw [hnext, hsign]
  refine reads_advance.seq fun _ ↦ (hoperand.signed ht (by omega)).bind fun operand' h ↦ .pure ?_
  rw [Same, eraseSpans, eraseSpans, h]

/-- The operator's level ends the right operand, and lets the loop of the left one go on. -/
theorem readable_binary {op : BinaryOp} {left right : Expr} {span : Span} (hleft : left.Readable)
    (hright : right.Readable) : (binary op left right span).Readable := by
  refine .of_operation (fun level hlevel {t rest after n least Q} hleast ht hbinding hn htail ↦ ?_)
    op.level_pos (Nat.lt_succ_of_le op.level_le)
  have hle : level ≤ op.level := hlevel
  rw [tokensAt_of_le hlevel, tokens, ← tokensAt, ← tokensAt] at hn ⊢
  simp only [List.append_assoc, List.cons_append] at hn ⊢
  refine hleft.operation op.level op.level_pos (Nat.le_succ_of_le op.level_le)
    (Nat.le_trans hleast hle) (endsOperand_symbol op) ?_ hn fun m left' hleft' hm ↦ ?_
  · intro op' binding hop
    rw [operator?_symbol, Option.some.injEq, Prod.mk.injEq] at hop
    omega
  · simp only [List.length_append, List.length_cons] at hm
    obtain ⟨m, rfl⟩ := Nat.exists_eq_add_of_le' (show 1 ≤ m by omega)
    rw [operationTail]
    refine reads_current.bind fun next hnext ↦ ?_
    rw [hnext, operator?_symbol]
    refine .ite_neg (by omega) (reads_advance.seq fun _ ↦ ?_)
    refine (right.reads_skipNewlines_tokensAt _ _).seq fun _ ↦ ?_
    have hrun : Reads (Grammar.operation m (op.level + 1))
        (right.tokensAt (op.level + 1) ++ t :: rest) (t :: rest) right.Same := by
      have hop_le := op.level_le
      refine hright.operation (op.level + 1) (Nat.succ_pos _) (by omega) (Nat.le_refl _) ht
        (fun op' binding hop ↦ ?_) ?_ fun k right' hright' hk ↦ ?_
      · have := hbinding op' binding hop
        omega
      · simp only [List.length_append, List.length_cons]
        omega
      · refine reads_operationTail_stop (by omega) (fun op' binding hop ↦ ?_) hright'
        have := hbinding op' binding hop
        omega
    refine hrun.bind fun right' hright' ↦ htail m _ ?_ ?_
    · rw [Same, eraseSpans, eraseSpans, hleft', hright']
    · simp only [List.length_cons]
      omega

/-! ## All expressions -/

mutual

theorem readable_of_written : ∀ e : Expr, e.Written → e.Readable := by
  intro e h
  cases e with
  | constant => exact readable_constant
  | var => exact readable_var
  | classRef => exact h.elim
  | property object => exact readable_property (readable_of_written object h)
  | call _ arguments => exact readable_call (allReadable_of_allWritten arguments h)
  | invoke receiver _ arguments =>
    exact readable_invoke (readable_of_written receiver h.1)
      (allReadable_of_allWritten arguments h.2)
  | binary _ left right =>
    exact readable_binary (readable_of_written left h.1) (readable_of_written right h.2)
  | unary _ operand => exact readable_unary (readable_of_written operand h)
  | assign _ value => exact readable_assign (readable_of_written value h)
  | list elements => exact readable_list (allReadable_of_allWritten elements h)

theorem allReadable_of_allWritten : ∀ es : List Expr, AllWritten es → AllReadable es
  | [], _ => List.forall_mem_nil _
  | e :: es, h => List.forall_mem_cons.mpr
      ⟨readable_of_written e h.1, allReadable_of_allWritten es h.2⟩

end

end Expr

end BuildScript
