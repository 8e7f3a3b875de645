import BuildScript.Proofs.Syntax.JoinedScripts

/-!
# Nothing is read past a `return` in front of `else`

A statement may end in `return` alone, but not in front of `else`: what follows is taken for the
value to be returned, unless it is a newline, a semicolon, a closing brace or the end of the text,
and no expression begins with that word. So tokens with the two words side by side are no script.
The judgement is `Stops`: a reader that succeeds on such tokens has not come to that place, and
leaves them with it. Only the reader for `return` reads that word, and it fails when the next one is
`else`.

This is what the newline in front of an `else` can be needed for, and it is the only thing.
-/

namespace BuildScript

namespace Grammar

/-! ## The judgement -/

/-- Somewhere among the tokens `else` stands directly behind `return`. -/
def Barred (ts : List Located) : Prop :=
  [.keyword .returnWord, .keyword .elseWord] <:+: ts.map (·.token)

namespace Barred

variable {t : Located} {ts : List Located}

theorem tail_or_else (h : Barred (t :: ts)) :
    Barred ts ∨ t.token = .keyword .returnWord ∧ head ts = .keyword .elseWord := by
  rw [Barred, List.map_cons, List.infix_cons_iff] at h
  rcases h with hhere | hmore
  · obtain ⟨heq, hnext⟩ := List.cons_prefix_cons.mp hhere
    cases ts with
    | nil => cases List.prefix_nil.mp hnext
    | cons u ts => exact .inr ⟨heq.symm, (List.cons_prefix_cons.mp hnext).1.symm⟩
  · exact .inl hmore

theorem drop_one (h : Barred ts) (hhead : head ts ≠ .keyword .returnWord) :
    Barred (ts.drop 1) := by
  cases ts with
  | nil => exact h
  | cons t ts =>
    rcases h.tail_or_else with hmore | ⟨hreturn, -⟩
    · exact hmore
    · exact absurd hreturn hhead

theorem dropWhile (h : Barred ts) {q : Token → Bool} (hq : q (.keyword .returnWord) = false) :
    Barred (ts.dropWhile (q ·.token)) := by
  induction ts with
  | nil => exact h
  | cons t ts ih =>
    rw [List.dropWhile_cons]
    split
    next hskip =>
      rcases h.tail_or_else with hmore | ⟨hreturn, -⟩
      · exact ih hmore
      · rw [hreturn, hq] at hskip
        cases hskip
    next => exact h

theorem not_atEnd (h : Barred ts) : ¬AtEnd ts := by
  have hlength : 2 ≤ (ts.map (·.token)).length := h.length_le
  rintro (rfl | ⟨span, rfl⟩)
  · exact absurd hlength (by decide)
  · exact absurd hlength (by simp)

end Barred

/-- From barred tokens, the first of which is as told, the reader does not come past the bar. -/
def Stops {α : Type} (p : Token → Prop) (x : GrammarM α) : Prop :=
  ∀ ts, Barred ts → p (head ts) → ∀ a rest, x ts = .ok a rest → Barred rest

section

variable {α β : Type} {p : Token → Prop} {x y : GrammarM α} {token : Token}

namespace Stops

theorem any (h : Stops (fun _ ↦ True) x) : Stops p x :=
  fun ts hts _ ↦ h ts hts trivial

theorem pure {a : α} : Stops p (Pure.pure a : GrammarM α) := by
  rintro ts hts - b rest ⟨⟩
  exact hts

theorem seq {f : α → GrammarM β} (hx : Stops p x) (hf : ∀ a, Stops (fun _ ↦ True) (f a)) :
    Stops p (x >>= f) := by
  intro ts hts hp b rest hrun
  obtain ⟨a, mid, hfirst, hsecond⟩ := bind_eq_ok_iff.mp hrun
  exact hf a mid (hx ts hts hp a mid hfirst) trivial b rest hsecond

theorem ite {c : Prop} [Decidable c] (hx : Stops p x) (hy : Stops p y) :
    Stops p (if c then x else y) := by
  split
  · exact hx
  · exact hy

end Stops

theorem stops_fail {fault : SyntaxFault} {span : Span} :
    Stops p (fail fault span : GrammarM α) := by
  rintro ts hts - a rest ⟨⟩

theorem stops_fail_bind {fault : SyntaxFault} {span : Span} {f : α → GrammarM β} :
    Stops p (fail fault span >>= f) := by
  rintro ts hts - a rest ⟨⟩

theorem stops_unexpected {wanted : Wanted} : Stops p (unexpected wanted : GrammarM α) := by
  rintro ts hts - a rest ⟨⟩

theorem stops_tooDeep : Stops p (tooDeep : GrammarM α) := by
  rintro ts hts - a rest ⟨⟩

theorem stops_current {f : Located → GrammarM α} (h : ∀ t : Located, Stops (· = t.token) (f t)) :
    Stops p (current >>= f) :=
  fun ts hts _ a rest hrun ↦ h (ts.headD ⟨.eof, .none⟩) ts hts rfl a rest hrun

theorem symbol_ne_return (s : Symbol) : Token.symbol s ≠ .keyword .returnWord := nofun

theorem identifier_ne_return (name : String) : Token.identifier name ≠ .keyword .returnWord := nofun

theorem keyword_ne_return {k : Keyword} (h : k ≠ .returnWord) :
    Token.keyword k ≠ .keyword .returnWord :=
  fun heq ↦ h (Token.keyword.inj heq)

/-- Any token may be read but `return`. -/
theorem stops_advance (h : token ≠ .keyword .returnWord) : Stops (· = token) advance := by
  rintro ts hts hhead a rest ⟨⟩
  exact hts.drop_one (hhead ▸ h)

theorem stops_nextIs : Stops p (nextIs token) :=
  stops_current fun _ ↦ .pure

theorem stops_accept (h : token ≠ .keyword .returnWord) : Stops p (accept token) := by
  rw [accept, nextIs, bind_assoc]
  refine stops_current fun t ↦ ?_
  rw [pure_bind]
  split
  next heq =>
    rw [eq_of_beq heq]
    exact (stops_advance h).seq fun _ ↦ .pure
  next => exact .pure

theorem stops_expect (h : token ≠ .keyword .returnWord) : Stops p (expect token) := by
  refine stops_current fun t ↦ ?_
  split
  next heq =>
    rw [eq_of_beq heq]
    exact (stops_advance h).seq fun _ ↦ .pure
  next => exact stops_unexpected

theorem stops_identifier {wanted : Wanted} : Stops p (identifier wanted) := by
  refine stops_current fun t ↦ ?_
  split
  next name heq =>
    rw [heq]
    exact (stops_advance (identifier_ne_return name)).seq fun _ ↦ .pure
  next => exact stops_unexpected

theorem stops_skipNewlines : Stops p skipNewlines := by
  rintro ts hts - a rest ⟨⟩
  exact hts.dropWhile (q := (· == .newline)) rfl

theorem stops_skipSeparators : Stops p skipSeparators := by
  rintro ts hts - a rest ⟨⟩
  exact hts.dropWhile (q := Token.isSeparator) rfl

theorem stops_atMethod : Stops p atMethod := by
  intro ts hts _ a rest hrun
  rw [atMethod_eq] at hrun
  cases hrun
  exact hts

theorem stops_statementEnd {inBlock : Bool} : Stops p (statementEnd inBlock) := by
  intro ts hts _ a rest hrun
  obtain ⟨rfl, -⟩ := statementEnd_of_head_eq rfl hrun
  exact hts

end

/-! ## Expressions -/

/-- The functions for expressions, all with one bound. -/
structure ExpressionsStop (n : Nat) : Prop where
  expression : Stops (fun _ ↦ True) (expression n)
  operation : ∀ level, Stops (fun _ ↦ True) (operation n level)
  operationTail : ∀ level left, Stops (fun _ ↦ True) (operationTail n level left)
  signed : Stops (fun _ ↦ True) (signed n)
  memberTail : ∀ object, Stops (fun _ ↦ True) (memberTail n object)
  primary : Stops (fun _ ↦ True) (primary n)
  arguments : Stops (fun _ ↦ True) (arguments n)
  elements : ∀ close done, Stops (fun _ ↦ True) (elements n close done)

theorem expressionsStop_zero : ExpressionsStop 0 where
  expression := by rw [expression]; exact stops_tooDeep
  operation _ := by rw [operation]; exact stops_tooDeep
  operationTail _ _ := by rw [operationTail]; exact stops_tooDeep
  signed := by rw [signed]; exact stops_tooDeep
  memberTail _ := by rw [memberTail]; exact stops_tooDeep
  primary := by rw [primary]; exact stops_tooDeep
  arguments := by rw [arguments]; exact stops_tooDeep
  elements _ _ := by rw [elements]; exact stops_tooDeep

namespace ExpressionsStop

variable {n : Nat}

theorem expression_succ (h : ExpressionsStop n) :
    Stops (fun _ ↦ True) (Grammar.expression (n + 1)) := by
  rw [Grammar.expression]
  refine (h.operation 0).seq fun target ↦ stops_current fun next ↦ ?_
  split
  next heq =>
    rw [eq_of_beq heq]
    refine (stops_advance (symbol_ne_return _)).seq fun _ ↦ stops_skipNewlines.seq fun _ ↦ ?_
    split
    · exact h.expression.seq fun _ ↦ .pure
    · exact stops_fail
  next => exact .pure

theorem operation_succ (h : ExpressionsStop n) (level : Nat) :
    Stops (fun _ ↦ True) (Grammar.operation (n + 1) level) := by
  rw [Grammar.operation]
  exact h.signed.seq fun left ↦ h.operationTail level left

theorem operationTail_succ (h : ExpressionsStop n) (level : Nat) (left : Expr) :
    Stops (fun _ ↦ True) (Grammar.operationTail (n + 1) level left) := by
  rw [Grammar.operationTail]
  refine stops_current fun next ↦ ?_
  split
  next op binding hop =>
    have hne : next.token ≠ .keyword .returnWord := fun heq ↦ by
      rw [heq] at hop
      cases hop
    refine .ite .pure ((stops_advance hne).seq fun _ ↦ stops_skipNewlines.seq fun _ ↦ ?_)
    exact (h.operation _).seq fun _ ↦ h.operationTail level _
  next => exact .pure

theorem signed_succ (h : ExpressionsStop n) :
    Stops (fun _ ↦ True) (Grammar.signed (n + 1)) := by
  rw [Grammar.signed]
  refine stops_current fun next ↦ ?_
  split
  next op hop =>
    have hne : next.token ≠ .keyword .returnWord := fun heq ↦ by
      rw [heq] at hop
      cases hop
    exact (stops_advance hne).seq fun _ ↦ h.signed.seq fun _ ↦ .pure
  next => exact h.primary.any.seq fun e ↦ h.memberTail e

theorem memberTail_succ (h : ExpressionsStop n) (object : Expr) :
    Stops (fun _ ↦ True) (Grammar.memberTail (n + 1) object) := by
  rw [Grammar.memberTail]
  refine (stops_accept (symbol_ne_return _)).seq fun _ ↦ .ite ?_ .pure
  refine stops_skipNewlines.seq fun _ ↦ stops_identifier.seq fun member ↦ ?_
  refine stops_nextIs.seq fun _ ↦ .ite ?_ (h.memberTail _)
  exact h.arguments.seq fun _ ↦ h.memberTail _

theorem primary_succ (h : ExpressionsStop n) :
    Stops (fun _ ↦ True) (Grammar.primary (n + 1)) := by
  rw [Grammar.primary]
  refine stops_current fun next ↦ ?_
  cases hliteral : literal? next.token with
  | some value =>
    have hne : next.token ≠ .keyword .returnWord := fun heq ↦ by
      rw [heq] at hliteral
      cases hliteral
    exact (stops_advance hne).seq fun _ ↦ .pure
  | none =>
    dsimp only
    split
    next name heq =>
      rw [heq]
      refine (stops_advance (identifier_ne_return name)).seq fun _ ↦ ?_
      refine stops_nextIs.seq fun _ ↦ .ite ?_ .pure
      exact h.arguments.seq fun _ ↦ .pure
    next heq =>
      rw [heq]
      refine (stops_advance (symbol_ne_return _)).seq fun _ ↦ stops_skipNewlines.seq fun _ ↦ ?_
      refine h.expression.seq fun e ↦ stops_skipNewlines.seq fun _ ↦ ?_
      exact (stops_expect (symbol_ne_return _)).seq fun _ ↦ .pure
    next heq =>
      rw [heq]
      refine (stops_advance (symbol_ne_return _)).seq fun _ ↦ stops_skipNewlines.seq fun _ ↦ ?_
      exact (h.elements _ []).seq fun _ ↦ .pure
    next => exact stops_unexpected

theorem arguments_succ (h : ExpressionsStop n) :
    Stops (fun _ ↦ True) (Grammar.arguments (n + 1)) := by
  rw [Grammar.arguments]
  refine (stops_expect (symbol_ne_return _)).seq fun _ ↦ ?_
  exact stops_skipNewlines.seq fun _ ↦ h.elements _ []

theorem elements_succ (h : ExpressionsStop n) (close : Symbol) (done : List Expr) :
    Stops (fun _ ↦ True) (Grammar.elements (n + 1) close done) := by
  rw [Grammar.elements]
  refine stops_nextIs.seq fun _ ↦ .ite ((stops_expect (symbol_ne_return _)).seq fun _ ↦ .pure) ?_
  refine h.expression.seq fun e ↦ stops_skipNewlines.seq fun _ ↦ ?_
  refine (stops_accept (symbol_ne_return _)).seq fun _ ↦ ?_
  refine .ite (stops_skipNewlines.seq fun _ ↦ h.elements close _) ?_
  exact (stops_expect (symbol_ne_return _)).seq fun _ ↦ .pure

end ExpressionsStop

theorem expressionsStop (n : Nat) : ExpressionsStop n := by
  induction n with
  | zero => exact expressionsStop_zero
  | succ n ih => exact
    { expression := ih.expression_succ
      operation := ih.operation_succ
      operationTail := ih.operationTail_succ
      signed := ih.signed_succ
      memberTail := ih.memberTail_succ
      primary := ih.primary_succ
      arguments := ih.arguments_succ
      elements := ih.elements_succ }

/-! ## Statements -/

section

variable {p : Token → Prop} {n : Nat}

theorem stops_expression : Stops p (expression n) := (expressionsStop n).expression.any

theorem stops_commandArguments (done : List Expr) : Stops p (commandArguments n done) := by
  induction n generalizing p done with
  | zero => exact stops_tooDeep
  | succ n ih =>
    rw [commandArguments]
    refine (stops_accept (symbol_ne_return _)).seq fun _ ↦ .ite ?_ .pure
    exact stops_skipNewlines.seq fun _ ↦ stops_expression.seq fun _ ↦ ih _

theorem stops_expressionStatement : Stops p (expressionStatement n) := by
  refine stops_expression.seq fun e ↦ stops_current fun next ↦ .ite ?_ .pure
  split
  · exact stops_expression.seq fun first ↦ (stops_commandArguments [first]).seq fun _ ↦ .pure
  · exact stops_expression.seq fun first ↦ (stops_commandArguments [first]).seq fun _ ↦ .pure
  · exact stops_unexpected

theorem stops_declaration : Stops p (declaration n) := by
  refine stops_atMethod.seq fun _ ↦ .ite (stops_current fun _ ↦ stops_fail_bind) ?_
  refine (stops_expect (keyword_ne_return (by decide))).seq fun start ↦ ?_
  refine stops_identifier.seq fun binder ↦ (stops_accept (symbol_ne_return _)).seq fun _ ↦ ?_
  refine .ite ?_ .pure
  exact stops_skipNewlines.seq fun _ ↦ stops_expression.seq fun _ ↦ .pure

theorem stops_condition : Stops p (condition n) := by
  refine (stops_expect (symbol_ne_return _)).seq fun _ ↦ stops_skipNewlines.seq fun _ ↦ ?_
  refine stops_expression.seq fun e ↦ stops_skipNewlines.seq fun _ ↦ ?_
  exact (stops_expect (symbol_ne_return _)).seq fun _ ↦ stops_skipNewlines.seq fun _ ↦ .pure

theorem exists_cons_of_expect {ts rest : List Located} {span : Span}
    (h : expect (.keyword .returnWord) ts = .ok span rest) : ∃ t, ts = t :: rest := by
  obtain ⟨next, mid, hnext, hrest⟩ := bind_eq_ok_iff.mp h
  cases hnext
  split at hrest
  next heq =>
    cases ts with
    | nil => cases heq
    | cons t ts =>
      cases hrest
      exact ⟨t, rfl⟩
  next => cases hrest

/-- Behind `return` there is no value that begins with `else`, so the bar lies further on. -/
theorem stops_result : Stops p (result n) := by
  intro ts hts _ a rest hrun
  rw [result] at hrun
  obtain ⟨start, mid, hstart, hvalue⟩ := bind_eq_ok_iff.mp hrun
  obtain ⟨t, rfl⟩ := exists_cons_of_expect hstart
  rcases hts.tail_or_else with hmore | ⟨-, helse⟩
  · refine stops_current (p := fun _ ↦ True) (fun next ↦ ?_) mid hmore trivial a rest hvalue
    split
    · exact .pure
    · exact .pure
    · exact .pure
    · exact .pure
    · exact stops_expression.seq fun _ ↦ .pure
  · refine absurd hvalue (rejects_current (fun next hnext ↦ ?_) mid helse a rest)
    rw [hnext]
    exact rejects_expression.bind

theorem stops_get {α : Type} {f : List Located → GrammarM α}
    (h : ∀ ts, Barred ts → Stops (fun _ ↦ True) (f ts)) : Stops p (get >>= f) :=
  fun ts hts _ a rest hrun ↦ h ts hts ts hts trivial a rest hrun

theorem stops_set {ts : List Located} (h : Barred ts) : Stops p (set ts) := by
  rintro us hus - a rest ⟨⟩
  exact h

end

/-- The functions for statements, all with one bound. -/
structure StatementsStop (n : Nat) : Prop where
  statement : Stops (fun _ ↦ True) (statement n)
  block : Stops (fun _ ↦ True) (block n)
  blockBody : ∀ done, Stops (fun _ ↦ True) (blockBody n done)

theorem statementsStop_zero : StatementsStop 0 where
  statement := by rw [statement]; exact stops_tooDeep
  block := by rw [block]; exact stops_tooDeep
  blockBody _ := by rw [blockBody]; exact stops_tooDeep

namespace StatementsStop

variable {n : Nat}

theorem statement_succ (h : StatementsStop n) :
    Stops (fun _ ↦ True) (Grammar.statement (n + 1)) := by
  rw [Grammar.statement]
  refine stops_current fun next ↦ ?_
  split
  next => exact stops_declaration
  next heq =>
    rw [heq]
    refine (stops_advance (keyword_ne_return (by decide))).seq fun _ ↦ ?_
    refine stops_condition.seq fun test ↦ ?_
    refine h.statement.seq fun body ↦ stops_get fun ts hts ↦ ?_
    have hskip : Barred (ts.dropWhile (·.token == .newline)) :=
      hts.dropWhile (q := (· == .newline)) rfl
    split
    next span rest heq =>
      rw [heq] at hskip
      rcases hskip.tail_or_else with hmore | ⟨hreturn, -⟩
      · refine (stops_set hmore).seq fun _ ↦ stops_skipNewlines.seq fun _ ↦ ?_
        exact h.statement.seq fun _ ↦ .pure
      · cases hreturn
    next => exact .pure
  next heq =>
    rw [heq]
    refine (stops_advance (keyword_ne_return (by decide))).seq fun _ ↦ ?_
    exact stops_condition.seq fun test ↦ h.statement.seq fun _ ↦ .pure
  next => exact stops_result
  next => exact h.block.any.seq fun _ ↦ .pure
  next => exact stops_fail
  next => exact stops_fail
  next => exact stops_expressionStatement

theorem block_succ (h : StatementsStop n) :
    Stops (fun _ ↦ True) (Grammar.block (n + 1)) := by
  rw [Grammar.block]
  refine (stops_expect (symbol_ne_return _)).seq fun start ↦ (h.blockBody []).seq fun body ↦ ?_
  exact (stops_expect (symbol_ne_return _)).seq fun _ ↦ .pure

theorem blockBody_succ (h : StatementsStop n) (done : List Stmt) :
    Stops (fun _ ↦ True) (Grammar.blockBody (n + 1) done) := by
  rw [Grammar.blockBody]
  refine stops_skipSeparators.seq fun _ ↦ stops_current fun next ↦ ?_
  split
  next => exact .pure
  next => exact .pure
  next => exact h.statement.any.seq fun s ↦ stops_statementEnd.seq fun _ ↦ h.blockBody _

end StatementsStop

theorem statementsStop (n : Nat) : StatementsStop n := by
  induction n with
  | zero => exact statementsStop_zero
  | succ n ih => exact
    { statement := ih.statement_succ
      block := ih.block_succ
      blockBody := ih.blockBody_succ }

/-! ## Headers and methods -/

section

variable {p : Token → Prop} {n : Nat} {script : Script}

theorem stops_nameTail {star : Bool} (start : Named) : Stops p (nameTail star n start) := by
  induction n generalizing p start with
  | zero => exact stops_tooDeep
  | succ n ih =>
    rw [nameTail]
    refine (stops_accept (symbol_ne_return _)).seq fun _ ↦ .ite (stops_current fun next ↦ ?_) .pure
    split
    next hstar =>
      rw [eq_of_beq (Bool.and_eq_true_iff.mp hstar).2]
      exact (stops_advance (symbol_ne_return _)).seq fun _ ↦ .pure
    next => exact stops_identifier.seq fun segment ↦ ih _

theorem stops_qualifiedName {star : Bool} : Stops p (qualifiedName star n) :=
  stops_identifier.seq fun start ↦ stops_nameTail start

theorem stops_package : Stops p (package n) := by
  refine (stops_expect (keyword_ne_return (by decide))).seq fun start ↦ ?_
  exact stops_qualifiedName.seq fun _ ↦ .pure

theorem stops_importInto : Stops p (importInto script n) := by
  refine (stops_expect (keyword_ne_return (by decide))).seq fun start ↦ stops_current fun next ↦ ?_
  refine .ite stops_fail_bind (stops_qualifiedName.seq fun name ↦ ?_)
  split
  next => exact .pure
  next =>
    refine (stops_accept (keyword_ne_return (by decide))).seq fun _ ↦ .ite ?_ .pure
    exact stops_identifier.seq fun localName ↦ .pure

theorem stops_parameters (done : List Named) : Stops p (parameters n done) := by
  induction n generalizing p done with
  | zero => exact stops_tooDeep
  | succ n ih =>
    rw [parameters]
    refine stops_nextIs.seq fun _ ↦ .ite .pure (stops_identifier.seq fun parameter ↦ ?_)
    refine .ite stops_fail_bind (stops_skipNewlines.seq fun _ ↦ ?_)
    refine (stops_accept (symbol_ne_return _)).seq fun _ ↦ ?_
    exact .ite (stops_skipNewlines.seq fun _ ↦ ih _) .pure

theorem stops_method : Stops p (method n) := by
  refine (stops_expect (keyword_ne_return (by decide))).seq fun start ↦ ?_
  refine stops_identifier.seq fun name ↦ (stops_expect (symbol_ne_return _)).seq fun _ ↦ ?_
  refine stops_skipNewlines.seq fun _ ↦ (stops_parameters []).seq fun parameters ↦ ?_
  refine (stops_expect (symbol_ne_return _)).seq fun _ ↦ stops_skipNewlines.seq fun _ ↦ ?_
  exact (statementsStop n).block.seq fun _ ↦ .pure

/-! ## Scripts -/

theorem stops_item : Stops p (item script n) := by
  refine stops_current fun next ↦ ?_
  split
  next => exact stops_package.seq fun name ↦ .ite .pure stops_fail
  next => exact stops_importInto
  next =>
    refine stops_atMethod.seq fun _ ↦ .ite (stops_method.seq fun _ ↦ .pure) ?_
    exact (statementsStop n).statement.seq fun _ ↦ .pure

/-- No round of reading comes past the bar, so in the end there is an error. -/
theorem items_ne_of_barred {rounds : Nat} {ts rest : List Located} {last : Script}
    (hts : Barred ts) (hn : 8 * ts.length + 5 ≤ n) (hrounds : ts.length < rounds) :
    items n rounds script [] ts ≠ (last, [], rest) := by
  induction rounds generalizing script ts with
  | zero => exact absurd hrounds (Nat.not_lt_zero _)
  | succ rounds ih =>
    intro h
    have hskip : Barred (ts.dropWhile (·.token.isSeparator)) :=
      hts.dropWhile (q := Token.isSeparator) rfl
    have hfew := (List.dropWhile_sublist (·.token.isSeparator) (l := ts)).length_le
    obtain ⟨script₁, rest₁, hitem, -, hmore⟩ := items_succ_eq_ok hskip.not_atEnd h
    have hshort := length_lt_of_item (by omega) hitem
    have hrest := stops_item (p := fun _ ↦ True) _ hskip trivial script₁ rest₁ hitem
    exact ih hrest (by omega) (by omega) hmore

theorem parseTokens_ne_of_barred {ts : List Located} (hts : Barred ts) :
    parseTokens ts ≠ .ok script := by
  intro h
  rw [parseTokens] at h
  rcases hitems : items (8 * (ts.length + 2)) (ts.length + 1)
    { span := (ts.headD ⟨.eof, .none⟩).span } [] ts with ⟨last, errors, rest⟩
  simp only [hitems] at h
  cases errors with
  | cons e errors => cases h
  | nil => exact items_ne_of_barred hts (by omega) (Nat.lt_succ_self _) hitems

end

end Grammar

open Grammar

/-- A newline in front of `else` may be left out of tokens that parse, unless it stands behind
`return`: without it they parse to the same script but for its places, or they do not parse. -/
theorem newline_before_else_optional_iff {front more : List Token} {ts ts' : List Located}
    {script : Script} (hts : ts.map (·.token) = front ++ .newline :: .keyword .elseWord :: more)
    (hts' : ts'.map (·.token) = front ++ .keyword .elseWord :: more)
    (hparse : parseTokens ts = .ok script) :
    (∃ script', parseTokens ts' = .ok script' ∧ script'.eraseSpans = script.eraseSpans) ↔
      front.getLast? ≠ some (.keyword .returnWord) := by
  constructor
  · rintro ⟨script', hparse', -⟩ hreturn
    obtain ⟨before, rfl⟩ := List.getLast?_eq_some_iff.mp hreturn
    refine parseTokens_ne_of_barred ?_ hparse'
    rw [Barred, hts', List.append_assoc]
    exact ⟨before, more, List.append_assoc ..⟩
  · exact fun hreturn ↦ mirrors_parseTokens (.of_map hts hts' hreturn) hparse

/-- `if (a) b`, a newline, `else c`. -/
theorem newline_before_else_optional_call :
    let front : List Token := [.keyword .ifWord, .symbol .leftParen, .identifier "a",
      .symbol .rightParen, .identifier "b"]
    let more : List Token := [.identifier "c", .eof]
    ∃ script script' : Script,
      parseTokens ((front ++ .newline :: .keyword .elseWord :: more).map (⟨·, .none⟩)) =
        .ok script ∧
      parseTokens ((front ++ .keyword .elseWord :: more).map (⟨·, .none⟩)) = .ok script' ∧
      script'.eraseSpans = script.eraseSpans := by
  intro front more
  have hmap (ts : List Token) : (ts.map (Located.mk · .none)).map (·.token) = ts := by
    rw [List.map_map]
    exact List.map_id ts
  obtain ⟨script, hparse⟩ : ∃ script, parseTokens
      ((front ++ .newline :: .keyword .elseWord :: more).map (⟨·, .none⟩)) = .ok script := ⟨_, rfl⟩
  obtain ⟨script', hparse', hsame⟩ := (newline_before_else_optional_iff (hmap _)
    (hmap (front ++ .keyword .elseWord :: more)) hparse).mpr nofun
  exact ⟨script, script', hparse, hparse', hsame⟩

/-- Behind `return` the newline cannot be left out. -/
theorem newline_before_else_required : ¬∀ (condition body alternative : List Token)
    (ts ts' : List Located) (script : Script),
    ts.map (·.token) = .keyword .ifWord :: .symbol .leftParen :: condition ++ .symbol .rightParen ::
      body ++ .newline :: .keyword .elseWord :: alternative ++ [.eof] →
    ts'.map (·.token) = .keyword .ifWord :: .symbol .leftParen :: condition ++ .symbol .rightParen ::
      body ++ .keyword .elseWord :: alternative ++ [.eof] →
    parseTokens ts = .ok script → (∃ c s t span, script.statements = [.ifElse c s t span]) →
    ∃ script', parseTokens ts' = .ok script' ∧ script'.eraseSpans = script.eraseSpans := by
  intro h
  let front : List Located := [⟨.keyword .ifWord, .none⟩, ⟨.symbol .leftParen, .none⟩,
    ⟨.identifier "a", .none⟩, ⟨.symbol .rightParen, .none⟩, ⟨.keyword .returnWord, .none⟩]
  let back : List Located := [⟨.keyword .elseWord, .none⟩, ⟨.identifier "b", .none⟩, ⟨.eof, .none⟩]
  obtain ⟨script', hparse, -⟩ := h [.identifier "a"] [.keyword .returnWord] [.identifier "b"]
    (front ++ ⟨.newline, .none⟩ :: back) (front ++ back) _ rfl rfl rfl ⟨_, _, _, _, rfl⟩
  have hfail : (parseTokens (front ++ back)).toOption = none := by rfl
  rw [hparse] at hfail
  cases hfail

end BuildScript
