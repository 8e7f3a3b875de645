import BuildScript.Proofs.Syntax.ReadExpressions

/-!
# Reading statements and methods back

Statements end in front of a newline, so what follows cannot be taken for a part of them, with one
exception: a conditional looks beyond newlines for an `else`. A statement that ends in a conditional
without `else` is read back only if none follows, which is where a script needs its braces.
-/

namespace BuildScript

open Grammar

/-- The two are the same but for their places. -/
def Stmt.Same (s s' : Stmt) : Prop := s'.eraseSpans = s.eraseSpans

def Stmt.AllSame (ss ss' : List Stmt) : Prop := Stmt.eraseAllSpans ss' = Stmt.eraseAllSpans ss

/-- The first token that is no newline is no `else`. -/
def NoElse (ts : List Token) : Prop :=
  (ts.dropWhile (· == .newline)).head? ≠ some (.keyword .elseWord)

theorem noElse_cons {t : Token} {ts : List Token} (hnewline : t ≠ .newline)
    (helse : t ≠ .keyword .elseWord) : NoElse (t :: ts) := by
  rw [NoElse, List.dropWhile_cons_of_neg (by simpa using hnewline), List.head?_cons, ne_eq,
    Option.some.injEq]
  exact helse

/-- Skipping newlines, with and without places. -/
theorem map_dropWhile_newline {located : List Located} {ts : List Token}
    (h : located.map (·.token) = .newline :: ts) :
    (located.dropWhile (·.token == .newline)).map (·.token) = ts.dropWhile (· == .newline) := by
  rw [← List.dropWhile_cons_of_pos (a := Token.newline) (p := (· == .newline)) rfl, ← h,
    List.dropWhile_map]
  rfl

namespace Token

variable {t : Token}

theorem ne_newline_of_startsStatement (h : t.startsStatement = true) : t ≠ .newline := by
  rintro rfl
  cases h

theorem ne_else_of_startsStatement (h : t.startsStatement = true) : t ≠ .keyword .elseWord := by
  rintro rfl
  cases h

theorem isSeparator_of_startsStatement (h : t.startsStatement = true) : t.isSeparator = false := by
  rw [isSeparator.eq_def]
  split
  · cases h
  · cases h
  · rfl

end Token

section

variable {n : Nat} {t : Token} {rest : List Token}

theorem reads_statementEnd (inBlock : Bool) :
    Reads (statementEnd inBlock) (.newline :: rest) (.newline :: rest) fun _ ↦ True := by
  refine reads_current.bind fun next hnext ↦ ?_
  rw [hnext]
  exact .pure trivial

theorem reads_expression {e : Expr} (h : e.Written) (ht : t.endsExpression = true)
    (hn : 8 * (e.tokens ++ t :: rest).length + 4 ≤ n) :
    Reads (expression n) (e.tokens ++ t :: rest) (t :: rest) e.Same :=
  (Expr.readable_of_written e h).expression ht hn

theorem reads_skipNewlines_statement (s : Stmt) (more : List Token) :
    Reads skipNewlines (s.tokens ++ more) (s.tokens ++ more) fun _ ↦ True := by
  obtain ⟨first, rest, hfirst, hstarts⟩ := s.exists_head_tokens
  rw [hfirst]
  exact reads_skipNewlines (Token.ne_newline_of_startsStatement hstarts)

/-- `condition` reads an expression back in front of a statement. -/
theorem reads_condition {e : Expr} {s : Stmt} (h : e.Written)
    (hn : 8 * (parenthesize e.tokens ++ (s.tokens ++ rest)).length ≤ n) :
    Reads (condition n) (parenthesize e.tokens ++ (s.tokens ++ rest)) (s.tokens ++ rest) e.Same := by
  rw [parenthesize] at hn ⊢
  simp only [List.cons_append, List.append_assoc, List.nil_append, List.length_cons] at hn ⊢
  refine reads_expect.seq fun _ ↦ (e.reads_skipNewlines_tokens _).seq fun _ ↦ ?_
  refine (reads_expression h rfl (by omega)).bind fun e' he' ↦ ?_
  refine (reads_skipNewlines (by decide)).seq fun _ ↦ reads_expect.seq fun _ ↦ ?_
  exact (reads_skipNewlines_statement s rest).seq fun _ ↦ .pure he'

/-! ## Reading one statement -/

namespace Stmt

/-- In front of a newline, `statement` reads the statement back. -/
def Readable (s : Stmt) : Prop :=
  ∀ {rest : List Token} {n : Nat}, (s.endsOpen = true → NoElse rest) →
    8 * (s.tokens ++ .newline :: rest).length + 5 ≤ n →
    Reads (statement n) (s.tokens ++ .newline :: rest) (.newline :: rest) s.Same

theorem readable_expression {e : Expr} (h : e.Written) : (expression e).Readable := by
  intro rest n _ hn
  rw [tokens] at hn ⊢
  obtain ⟨n, rfl⟩ := Nat.exists_eq_add_of_le' (show 1 ≤ n by omega)
  have hstatement : Reads (expressionStatement n) (e.tokens ++ .newline :: rest)
      (.newline :: rest) (expression e).Same := by
    refine (reads_expression h rfl (by omega)).bind fun e' he' ↦ ?_
    refine reads_current.bind fun next hnext ↦ ?_
    have hend : ¬ next.token.startsCommandArgument = true := by
      rw [hnext]
      exact Bool.false_ne_true
    refine .ite_neg hend (.pure ?_)
    rw [Same, eraseSpans, eraseSpans, he']
  obtain ⟨first, more, hfirst, hstarts⟩ := e.exists_head_tokens
  rw [hfirst] at hstatement ⊢
  rw [Grammar.statement]
  refine reads_current.bind fun next hnext ↦ ?_
  rw [hnext]
  split
  all_goals first | exact hstatement | cases hstarts

theorem readable_declare {name : String} {span : Span} : (declare name none span).Readable := by
  intro rest n _ hn
  obtain ⟨n, rfl⟩ := Nat.exists_eq_add_of_le' (show 1 ≤ n by omega)
  rw [Grammar.statement]
  refine reads_current.bind fun next hnext ↦ ?_
  rw [hnext]
  refine reads_atMethod.bind fun isMethod hmethod ↦ .ite_neg (by simp [hmethod, beginsMethod]) ?_
  refine reads_expect.seq fun start ↦ reads_identifier.bind fun binder hbinder ↦ ?_
  refine (reads_accept_ne (by decide)).bind fun assigned hassigned ↦ ?_
  refine .ite_neg (by simp [hassigned]) (.pure ?_)
  rw [Same, eraseSpans, eraseSpans, hbinder]

theorem readable_declare_some {name : String} {e : Expr} {span : Span} (h : e.Written) :
    (declare name (some e) span).Readable := by
  intro rest n _ hn
  rw [tokens] at hn ⊢
  simp only [List.cons_append, List.length_cons] at hn ⊢
  obtain ⟨n, rfl⟩ := Nat.exists_eq_add_of_le' (show 1 ≤ n by omega)
  rw [Grammar.statement]
  refine reads_current.bind fun next hnext ↦ ?_
  rw [hnext]
  refine reads_atMethod.bind fun isMethod hmethod ↦ .ite_neg (by simp [hmethod, beginsMethod]) ?_
  refine reads_expect.seq fun start ↦ reads_identifier.bind fun binder hbinder ↦ ?_
  refine reads_accept_self.bind fun assigned hassigned ↦ .ite_pos hassigned ?_
  refine (e.reads_skipNewlines_tokens _).seq fun _ ↦ ?_
  refine (reads_expression h rfl (by omega)).bind fun e' he' ↦ .pure ?_
  rw [Same, eraseSpans, eraseSpans, hbinder, Option.map_some, he', Option.map_some]

theorem readable_result {span : Span} : (result none span).Readable := by
  intro rest n _ hn
  obtain ⟨n, rfl⟩ := Nat.exists_eq_add_of_le' (show 1 ≤ n by omega)
  rw [Grammar.statement]
  refine reads_current.bind fun next hnext ↦ ?_
  rw [hnext]
  refine reads_expect.seq fun start ↦ reads_current.bind fun next hnext ↦ ?_
  rw [hnext]
  exact .pure rfl

theorem readable_result_some {e : Expr} {span : Span} (h : e.Written) :
    (result (some e) span).Readable := by
  intro rest n _ hn
  rw [tokens] at hn ⊢
  simp only [List.cons_append, List.length_cons] at hn ⊢
  obtain ⟨n, rfl⟩ := Nat.exists_eq_add_of_le' (show 1 ≤ n by omega)
  rw [Grammar.statement]
  refine reads_current.bind fun next hnext ↦ ?_
  rw [hnext]
  have hvalue (start : Span) : Reads (do
      let value ← Grammar.expression n
      return Stmt.result (some value) (start.merge value.span)) (e.tokens ++ .newline :: rest)
      (.newline :: rest) (result (some e) span).Same := by
    refine (reads_expression h rfl (by omega)).bind fun e' he' ↦ .pure ?_
    rw [Same, eraseSpans, eraseSpans, Option.map_some, he', Option.map_some]
  obtain ⟨first, more, hfirst, hstarts⟩ := e.exists_head_tokens
  rw [hfirst] at hvalue ⊢
  refine reads_expect.seq fun start ↦ reads_current.bind fun next hnext ↦ ?_
  rw [hnext]
  split
  all_goals first | exact hvalue start | cases hstarts

/-- A condition and a branch are read back, and reading goes on behind the branch. -/
theorem reads_branch {test : Expr} {body : Stmt} {f : Expr → Stmt → GrammarM Stmt}
    {after : List Token} {Q : Stmt → Prop} (htest : test.Written) (hbody : body.Readable)
    (hopen : body.endsOpen = true → NoElse rest)
    (hn : 8 * (parenthesize test.tokens ++ (body.tokens ++ .newline :: rest)).length ≤ n)
    (hf : ∀ test' body', test.Same test' → body.Same body' →
      Reads (f test' body') (.newline :: rest) after Q) :
    Reads (do
      let test ← condition n
      let body ← Grammar.statement n
      f test body) (parenthesize test.tokens ++ (body.tokens ++ .newline :: rest)) after Q := by
  refine (reads_condition htest hn).bind fun test' htest' ↦ ?_
  have hstatement : Reads (Grammar.statement n) (body.tokens ++ .newline :: rest) (.newline :: rest)
      body.Same := by
    refine hbody hopen ?_
    simp only [parenthesize, List.cons_append, List.length_append, List.length_cons] at hn ⊢
    omega
  exact hstatement.bind fun body' hbody' ↦ hf test' body' htest' hbody'

/-- No `else` is found behind the branch. -/
theorem readable_ifThen {test : Expr} {body : Stmt} {span : Span} (htest : test.Written)
    (hbody : body.Readable) : (ifThen test body span).Readable := by
  intro rest n helse hn
  rw [tokens] at hn ⊢
  simp only [List.cons_append, List.append_assoc, List.length_cons] at hn ⊢
  obtain ⟨n, rfl⟩ := Nat.exists_eq_add_of_le' (show 1 ≤ n by omega)
  rw [Grammar.statement]
  refine reads_current.bind fun next hnext ↦ ?_
  rw [hnext]
  refine reads_advance.seq fun _ ↦ reads_branch htest hbody (fun _ ↦ helse rfl) (by omega)
    fun test' body' htest' hbody' ↦ reads_get.bind fun located hlocated ↦ ?_
  have hnone : (located.dropWhile (·.token == .newline)).map (·.token) =
      rest.dropWhile (· == .newline) := map_dropWhile_newline hlocated
  split
  next place left heq =>
    rw [heq, List.map_cons] at hnone
    exact absurd (by rw [← hnone, List.head?_cons]) (helse rfl)
  next => exact .pure (by rw [Same, eraseSpans, eraseSpans, htest', hbody'])

/-- The `else` behind the newline is the conditional's own, since the first branch is closed. -/
theorem readable_ifElse {test : Expr} {body alternative : Stmt} {span : Span} (htest : test.Written)
    (hbody : body.Readable) (hclosed : body.endsOpen = false)
    (halternative : alternative.Readable) : (ifElse test body alternative span).Readable := by
  intro rest n helse hn
  rw [tokens] at hn ⊢
  simp only [List.cons_append, List.append_assoc, List.length_cons] at hn ⊢
  obtain ⟨n, rfl⟩ := Nat.exists_eq_add_of_le' (show 1 ≤ n by omega)
  rw [Grammar.statement]
  refine reads_current.bind fun next hnext ↦ ?_
  rw [hnext]
  refine reads_advance.seq fun _ ↦ reads_branch htest hbody
    (fun hopen ↦ absurd hopen (by simp [hclosed])) (by omega)
    fun test' body' htest' hbody' ↦ reads_get.bind fun located hlocated ↦ ?_
  obtain ⟨found, left, heq, hfound, hleft⟩ : ∃ found left,
      located.dropWhile (·.token == .newline) = found :: left ∧
        found.token = .keyword .elseWord ∧
        left.map (·.token) = alternative.tokens ++ .newline :: rest :=
    List.map_eq_cons_iff.mp (map_dropWhile_newline hlocated)
  obtain ⟨token, place⟩ := found
  cases hfound
  rw [heq]
  refine (reads_set hleft).seq fun _ ↦ (reads_skipNewlines_statement alternative _).seq fun _ ↦ ?_
  have hrun : Reads (Grammar.statement n) (alternative.tokens ++ .newline :: rest)
      (.newline :: rest) alternative.Same := by
    refine halternative (fun hopen ↦ helse hopen) ?_
    simp only [List.length_append, List.length_cons] at hn ⊢
    omega
  refine hrun.bind fun alternative' halternative' ↦ .pure ?_
  rw [Same, eraseSpans, eraseSpans, htest', hbody', halternative']

theorem readable_loop {test : Expr} {body : Stmt} {span : Span} (htest : test.Written)
    (hbody : body.Readable) : (loop test body span).Readable := by
  intro rest n helse hn
  rw [tokens] at hn ⊢
  simp only [List.cons_append, List.append_assoc, List.length_cons] at hn ⊢
  obtain ⟨n, rfl⟩ := Nat.exists_eq_add_of_le' (show 1 ≤ n by omega)
  rw [Grammar.statement]
  refine reads_current.bind fun next hnext ↦ ?_
  rw [hnext]
  refine reads_advance.seq fun _ ↦ reads_branch htest hbody (fun hopen ↦ helse hopen) (by omega)
    fun test' body' htest' hbody' ↦ .pure ?_
  rw [Same, eraseSpans, eraseSpans, htest', hbody']

/-! ## Blocks -/

def AllReadable (ss : List Stmt) : Prop := ∀ s ∈ ss, s.Readable

/-- The statements, or the brace behind them, begin with no separator and no `else`. -/
theorem exists_head_body (ss : List Stmt) (rest : List Token) :
    ∃ t more, tokensOfAll ss ++ .symbol .rightBrace :: rest = t :: more ∧
      t.isSeparator = false ∧ t ≠ .newline ∧ t ≠ .keyword .elseWord := by
  cases ss with
  | nil => exact ⟨_, _, rfl, rfl, by decide, by decide⟩
  | cons s ss =>
    obtain ⟨t, more, hhead, hstarts⟩ := s.exists_head_tokens
    rw [tokensOfAll, hhead]
    exact ⟨t, _, rfl, Token.isSeparator_of_startsStatement hstarts,
      Token.ne_newline_of_startsStatement hstarts, Token.ne_else_of_startsStatement hstarts⟩

/-- `blockBody` reads the statements of a block back, behind separators, up to the brace. -/
theorem reads_blockBody (ss done : List Stmt) (separators : List Token) {n : Nat}
    (hss : AllReadable ss) (hseparators : ∀ u ∈ separators, u.isSeparator = true)
    (hn : 8 * (tokensOfAll ss ++ .symbol .rightBrace :: rest).length + 6 ≤ n) :
    Reads (blockBody n done) (separators ++ (tokensOfAll ss ++ .symbol .rightBrace :: rest))
      (.symbol .rightBrace :: rest)
      fun read ↦ ∃ ss', read = done.reverse ++ ss' ∧ AllSame ss ss' := by
  obtain ⟨n, rfl⟩ := Nat.exists_eq_add_of_le' (show 1 ≤ n by omega)
  rw [blockBody]
  obtain ⟨t, more, hhead, hseparator, -, -⟩ := exists_head_body ss rest
  have hskip : Reads skipSeparators (separators ++ t :: more) (t :: more) fun _ ↦ True :=
    reads_skipSeparators hseparators hseparator
  rw [← hhead] at hskip
  refine hskip.seq fun _ ↦ ?_
  match ss with
  | [] =>
    refine reads_current.bind fun next hnext ↦ ?_
    rw [hnext]
    exact .pure ⟨[], (List.append_nil _).symm, rfl⟩
  | s :: ss =>
    rw [tokensOfAll] at hn ⊢
    simp only [List.append_assoc, List.cons_append] at hn ⊢
    have hstatement : Reads (Grammar.statement n)
        (s.tokens ++ .newline :: (tokensOfAll ss ++ .symbol .rightBrace :: rest))
        (.newline :: (tokensOfAll ss ++ .symbol .rightBrace :: rest)) s.Same := by
      refine hss s List.mem_cons_self (fun _ ↦ ?_) (by omega)
      obtain ⟨u, more, hhead, -, hnewline, helse⟩ := exists_head_body ss rest
      rw [hhead]
      exact noElse_cons hnewline helse
    have hrest (s' : Stmt) : Reads (blockBody n (s' :: done))
        ([.newline] ++ (tokensOfAll ss ++ .symbol .rightBrace :: rest))
        (.symbol .rightBrace :: rest)
        fun read ↦ ∃ ss', read = (s' :: done).reverse ++ ss' ∧ AllSame ss ss' := by
      refine reads_blockBody ss (s' :: done) [.newline] (fun s hs ↦ hss s (List.mem_cons_of_mem _ hs))
        (by simp [Token.isSeparator]) ?_
      simp only [List.length_append, List.length_cons] at hn ⊢
      omega
    have hrun : Reads (do
        let s ← Grammar.statement n
        statementEnd true
        blockBody n (s :: done))
        (s.tokens ++ .newline :: (tokensOfAll ss ++ .symbol .rightBrace :: rest))
        (.symbol .rightBrace :: rest)
        fun read ↦ ∃ ss', read = done.reverse ++ ss' ∧ AllSame (s :: ss) ss' := by
      refine hstatement.bind fun s' hs' ↦ (reads_statementEnd true).seq fun _ ↦ (hrest s').mono ?_
      rintro read ⟨ss', hread, hss'⟩
      refine ⟨s' :: ss', by simp [hread], ?_⟩
      rw [AllSame, eraseAllSpans, eraseAllSpans, hs', hss']
    obtain ⟨first, more, hfirst, hstarts⟩ := s.exists_head_tokens
    rw [hfirst] at hrun ⊢
    refine reads_current.bind fun next hnext ↦ ?_
    rw [hnext]
    split
    next => cases hstarts
    next => cases hstarts
    next => exact hrun

theorem reads_block {ss : List Stmt} (hss : AllReadable ss)
    (hn : 8 * (.symbol .leftBrace :: (tokensOfAll ss ++ .symbol .rightBrace :: rest)).length ≤ n) :
    Reads (Grammar.block n) (.symbol .leftBrace :: (tokensOfAll ss ++ .symbol .rightBrace :: rest))
      rest fun p ↦ AllSame ss p.1 := by
  rw [List.length_cons] at hn
  obtain ⟨n, rfl⟩ := Nat.exists_eq_add_of_le' (show 1 ≤ n by omega)
  rw [Grammar.block]
  refine reads_expect.seq fun start ↦ ?_
  have hbody := reads_blockBody ss [] [] hss (List.forall_mem_nil _)
    (show 8 * (tokensOfAll ss ++ .symbol .rightBrace :: rest).length + 6 ≤ n by omega)
  refine hbody.bind fun read hread ↦ reads_expect.seq fun stop ↦ .pure ?_
  obtain ⟨ss', rfl, hss'⟩ := hread
  exact hss'

theorem readable_block {ss : List Stmt} {span : Span} (hss : AllReadable ss) :
    (block ss span).Readable := by
  intro rest n _ hn
  rw [tokens] at hn ⊢
  simp only [List.cons_append, List.append_assoc, List.nil_append] at hn ⊢
  obtain ⟨n, rfl⟩ := Nat.exists_eq_add_of_le' (show 1 ≤ n by omega)
  rw [Grammar.statement]
  refine reads_current.bind fun next hnext ↦ ?_
  rw [hnext]
  refine (reads_block hss (by omega)).bind fun p hp ↦ .pure ?_
  rw [Same, eraseSpans, eraseSpans, hp]

/-! ## All statements -/

mutual

theorem readable_of_written : ∀ s : Stmt, s.Written → s.Readable := by
  intro s h
  cases s with
  | expression e => exact readable_expression h
  | declare name initial =>
    cases initial with
    | none => exact readable_declare
    | some e => exact readable_declare_some h
  | ifThen test body => exact readable_ifThen h.1 (readable_of_written body h.2)
  | ifElse test body alternative =>
    obtain ⟨htest, hbody, hclosed, halternative⟩ := h
    exact readable_ifElse htest (readable_of_written body hbody) hclosed
      (readable_of_written alternative halternative)
  | loop test body => exact readable_loop h.1 (readable_of_written body h.2)
  | result value =>
    cases value with
    | none => exact readable_result
    | some e => exact readable_result_some h
  | block body => exact readable_block (allReadable_of_allWritten body h)

theorem allReadable_of_allWritten : ∀ ss : List Stmt, AllWritten ss → AllReadable ss
  | [], _ => List.forall_mem_nil _
  | s :: ss, h => List.forall_mem_cons.mpr
      ⟨readable_of_written s h.1, allReadable_of_allWritten ss h.2⟩

end

end Stmt

/-! ## Methods -/

def Method.Same (m m' : Method) : Prop := m'.eraseSpans = m.eraseSpans

/-- Names, without places, are told by their texts. -/
theorem Named.map_eraseSpan_congr {ns ns' : List Named} (h : ns.map (·.name) = ns'.map (·.name)) :
    ns.map Named.eraseSpan = ns'.map Named.eraseSpan := by
  have heq (ns : List Named) : ns.map Named.eraseSpan = (ns.map (·.name)).map (⟨·, .none⟩) := by
    rw [List.map_map]
    rfl
  rw [heq, heq, h]

theorem length_le_length_parameterTokens (names : List String) :
    names.length ≤ (parameterTokens names).length := by
  match names with
  | [] => exact Nat.zero_le _
  | [name] => exact Nat.le_refl _
  | name :: next :: names =>
    have := length_le_length_parameterTokens (next :: names)
    rw [parameterTokens]
    simp only [List.length_cons] at this ⊢
    omega

theorem reads_skipNewlines_parameters (names : List String) :
    Reads skipNewlines (parameterTokens names ++ .symbol .rightParen :: rest)
      (parameterTokens names ++ .symbol .rightParen :: rest) fun _ ↦ True := by
  match names with
  | [] | [_] | _ :: _ :: _ => exact reads_skipNewlines (by simp)

/-- `parameters` reads names back up to the parenthesis, if none stands twice among them and those
read before. -/
theorem reads_parameters (names : List String) (done : List Named) {n : Nat} (hnodup : names.Nodup)
    (hdone : ∀ d ∈ done, d.name ∉ names) (hn : names.length < n) :
    Reads (parameters n done) (parameterTokens names ++ .symbol .rightParen :: rest)
      (.symbol .rightParen :: rest)
      fun read ↦ ∃ ps, read = done.reverse ++ ps ∧ ps.map (·.name) = names := by
  obtain ⟨n, rfl⟩ := Nat.exists_eq_add_of_le' (show 1 ≤ n by omega)
  rw [parameters]
  have hfresh {parameter : Named} (hmem : parameter.name ∈ names) :
      ¬ done.any (·.name == parameter.name) = true := by
    rw [List.any_eq_true]
    rintro ⟨d, hd, hname⟩
    rw [beq_iff_eq] at hname
    exact hdone d hd (hname ▸ hmem)
  match names with
  | [] =>
    refine reads_nextIs.bind fun found hfound ↦ .ite_pos (by simp [hfound]) ?_
    exact .pure ⟨[], (List.append_nil _).symm, rfl⟩
  | [name] =>
    refine reads_nextIs.bind fun found hfound ↦ .ite_neg (by simp [hfound]) ?_
    refine reads_identifier.bind fun parameter hname ↦ ?_
    refine .ite_neg (hfresh (by simp [hname])) ((reads_skipNewlines (by simp)).seq fun _ ↦ ?_)
    refine (reads_accept_ne (by decide)).bind fun more hmore ↦ .ite_neg (by simp [hmore]) (.pure ?_)
    exact ⟨[parameter], by rw [List.reverse_cons], by simp [hname]⟩
  | name :: next :: names =>
    refine reads_nextIs.bind fun found hfound ↦ .ite_neg (by simp [hfound]) ?_
    refine reads_identifier.bind fun parameter hname ↦ ?_
    refine .ite_neg (hfresh (by simp [hname])) ((reads_skipNewlines (by simp)).seq fun _ ↦ ?_)
    refine reads_accept_self.bind fun more hmore ↦ .ite_pos hmore ?_
    obtain ⟨hnot, hnodup⟩ := List.nodup_cons.mp hnodup
    have hrest := reads_parameters (next :: names) (parameter :: done) (n := n) hnodup
      (List.forall_mem_cons.mpr ⟨hname ▸ hnot, fun d hd hmem ↦
        hdone d hd (List.mem_cons_of_mem _ hmem)⟩) (by simpa using hn)
    refine (reads_skipNewlines_parameters (next :: names)).seq fun _ ↦ hrest.mono ?_
    rintro read ⟨ps, hread, hps⟩
    exact ⟨parameter :: ps, by simp [hread], by rw [List.map_cons, hname, hps]⟩

/-- `method` reads a method back. -/
theorem reads_method {m : Method} (h : m.Written) (hn : 8 * (m.tokens ++ rest).length ≤ n) :
    Reads (method n) (m.tokens ++ rest) rest m.Same := by
  rw [Method.tokens, parenthesize] at hn ⊢
  simp only [List.cons_append, List.append_assoc, List.nil_append, List.length_cons,
    List.length_append] at hn ⊢
  refine reads_expect.seq fun start ↦ reads_identifier.bind fun name hname ↦ ?_
  refine reads_expect.seq fun _ ↦ (reads_skipNewlines_parameters _).seq fun _ ↦ ?_
  have hlength := length_le_length_parameterTokens (m.parameters.map (·.name))
  refine (reads_parameters _ [] h.nodup (List.forall_mem_nil _) (by omega)).bind
    fun parameters hparameters ↦ ?_
  refine reads_expect.seq fun _ ↦ (reads_skipNewlines (by decide)).seq fun _ ↦ ?_
  have hbody : Stmt.AllReadable m.body := Stmt.allReadable_of_allWritten m.body h.body
  refine (Stmt.reads_block hbody ?_).bind fun p hp ↦ .pure ?_
  · simp only [List.length_append, List.length_cons]
    omega
  · obtain ⟨ps, hread, hps⟩ := hparameters
    rw [List.reverse_nil, List.nil_append] at hread
    rw [Method.Same, Method.eraseSpans, Method.eraseSpans, hname, hp, hread,
      Named.map_eraseSpan_congr hps]

end

end BuildScript
