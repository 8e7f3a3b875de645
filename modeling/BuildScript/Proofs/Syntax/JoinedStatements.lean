import BuildScript.Proofs.Syntax.JoinedExpressions
import BuildScript.Proofs.Syntax.ReadStatements

/-!
# Statements with fewer newlines

A statement that is read from the tokens is read from them without the newlines in front of `else`
too. In two places the grammar looks at what follows a statement. A conditional skips the newlines
in front of its `else` anyway. A block takes the newline for the end of the statement where it does
not take the word; but then it goes on with a statement that begins with the word, and there is
none.
-/

namespace BuildScript

open Grammar

namespace Stmt

variable {e e' : Expr} {s s₁ s₂ s' s₁' s₂' : Stmt} {ss ss' : List Stmt} {name : String}
  {span span' : Span}

theorem AllSame.cons (h : s.Same s') (hs : AllSame ss ss') : AllSame (s :: ss) (s' :: ss') := by
  rw [AllSame, eraseAllSpans, eraseAllSpans, h, hs]

theorem AllSame.reverse (h : AllSame ss ss') : AllSame ss.reverse ss'.reverse := by
  rw [AllSame, eraseAllSpans_eq_map, eraseAllSpans_eq_map] at h ⊢
  rw [List.map_reverse, List.map_reverse, h]

namespace Same

theorem expression (h : e.Same e') : (Stmt.expression e).Same (.expression e') :=
  congrArg Stmt.expression h

theorem declare (h : e.Same e') :
    (Stmt.declare name (some e) span).Same (.declare name (some e') span') :=
  congrArg (fun e ↦ Stmt.declare name (some e) .none) h

theorem result (h : e.Same e') : (Stmt.result (some e) span).Same (.result (some e') span') :=
  congrArg (fun e ↦ Stmt.result (some e) .none) h

theorem ifThen (h : e.Same e') (hs : s.Same s') :
    (Stmt.ifThen e s span).Same (.ifThen e' s' span') := by
  rw [Same, eraseSpans, eraseSpans, h, hs]

theorem ifElse (h : e.Same e') (h₁ : s₁.Same s₁') (h₂ : s₂.Same s₂') :
    (Stmt.ifElse e s₁ s₂ span).Same (.ifElse e' s₁' s₂' span') := by
  rw [Same, eraseSpans, eraseSpans, h, h₁, h₂]

theorem loop (h : e.Same e') (hs : s.Same s') : (Stmt.loop e s span).Same (.loop e' s' span') := by
  rw [Same, eraseSpans, eraseSpans, h, hs]

theorem block (h : AllSame ss ss') : (Stmt.block ss span).Same (.block ss' span') :=
  congrArg (Stmt.block · .none) h

end Same

end Stmt

namespace Grammar

/-! ## No statement begins with the word -/

/-- From tokens that begin with `else`, the reader fails. -/
def Rejects {α : Type} (x : GrammarM α) : Prop :=
  ∀ ts, head ts = .keyword .elseWord → ∀ a rest, x ts ≠ .ok a rest

section

variable {α β : Type} {x : GrammarM α} {f : α → GrammarM β} {n : Nat}

theorem Rejects.bind (hx : Rejects x) : Rejects (x >>= f) := by
  intro ts hts b rest hrun
  obtain ⟨a, mid, hfirst, -⟩ := bind_eq_ok_iff.mp hrun
  exact hx ts hts a mid hfirst

theorem rejects_current {f : Located → GrammarM β}
    (h : ∀ t : Located, t.token = .keyword .elseWord → Rejects (f t)) : Rejects (current >>= f) :=
  fun ts hts b rest hrun ↦ h (ts.headD ⟨.eof, .none⟩) hts ts hts b rest hrun

theorem rejects_tooDeep : Rejects (tooDeep : GrammarM α) := by
  rintro ts hts a rest ⟨⟩

theorem rejects_primary : Rejects (primary n) := by
  cases n with
  | zero =>
    rw [primary]
    exact rejects_tooDeep
  | succ n =>
    rw [primary]
    refine rejects_current fun t ht ↦ ?_
    rw [ht]
    rintro ts hts a rest ⟨⟩

theorem rejects_signed : Rejects (signed n) := by
  cases n with
  | zero =>
    rw [signed]
    exact rejects_tooDeep
  | succ n =>
    rw [signed]
    refine rejects_current fun t ht ↦ ?_
    rw [ht]
    exact rejects_primary.bind

theorem rejects_expression : Rejects (expression n) := by
  rcases n with _ | _ | n
  · rw [expression]
    exact rejects_tooDeep
  · rw [expression, operation]
    exact rejects_tooDeep.bind
  · rw [expression, operation]
    exact rejects_signed.bind.bind

theorem rejects_statement : Rejects (statement n) := by
  cases n with
  | zero =>
    rw [statement]
    exact rejects_tooDeep
  | succ n =>
    rw [statement]
    refine rejects_current fun t ht ↦ ?_
    rw [ht]
    exact rejects_expression.bind

end

/-! ## Further rules of the judgement -/

section

variable {α : Type} {ℓ : Nat} {R : α → α → Prop} {P' : α → List Located → List Located → Prop}

theorem atMethod_eq (ts : List Located) :
    atMethod ts = .ok (beginsMethod (ts.map (·.token))) ts := by
  have hget (f : List Located → GrammarM Bool) : (get >>= f) ts = f ts ts := rfl
  rw [atMethod, hget]
  split
  next => rfl
  next hother =>
    refine congrArg (EStateM.Result.ok · ts) (Eq.symm ?_)
    rw [beginsMethod.eq_def]
    split
    next name more heq =>
      exfalso
      rcases ts with _ | ⟨⟨a, p⟩, _ | ⟨⟨b, q⟩, _ | ⟨⟨c, r⟩, ts⟩⟩⟩
      · cases heq
      · cases heq
      · cases heq
      · cases heq
        exact hother _ _ _ _ _ rfl
    next => rfl

theorem beginsMethod_iff {ts : List Located} :
    beginsMethod (ts.map (·.token)) = true ↔ head ts = .keyword .defWord ∧
      (∃ name, head (ts.drop 1) = .identifier name) ∧ head (ts.drop 2) = .symbol .leftParen := by
  constructor
  · intro h
    rw [beginsMethod.eq_def] at h
    split at h
    next name more heq =>
      obtain ⟨⟨a, p⟩, _, rfl, ha, heq⟩ := List.map_eq_cons_iff.mp heq
      obtain ⟨⟨b, q⟩, _, rfl, hb, heq⟩ := List.map_eq_cons_iff.mp heq
      obtain ⟨⟨c, r⟩, _, rfl, hc, -⟩ := List.map_eq_cons_iff.mp heq
      exact ⟨ha, ⟨name, hb⟩, hc⟩
    next => cases h
  · rintro ⟨hdef, ⟨name, hname⟩, hparen⟩
    rcases ts with _ | ⟨⟨a, p⟩, _ | ⟨⟨b, q⟩, _ | ⟨⟨c, r⟩, ts⟩⟩⟩
    · cases hdef
    · cases hname
    · cases hparen
    · obtain rfl : a = _ := hdef
      obtain rfl : b = _ := hname
      obtain rfl : c = _ := hparen
      rfl

theorem Joined.beginsMethod_eq {ts ts' : List Located} (h : Joined ts ts') :
    beginsMethod (ts'.map (·.token)) = beginsMethod (ts.map (·.token)) := by
  rw [Bool.eq_iff_iff, beginsMethod_iff, beginsMethod_iff]
  rw [h.head_iff (by decide) (by decide)]
  refine and_congr_right fun hdef ↦ ?_
  have h₁ := h.drop_one (h.head_eq_of_ne (by rw [hdef]; decide))
  have hnames : (∃ name, head (ts'.drop 1) = .identifier name) ↔
      ∃ name, head (ts.drop 1) = .identifier name := exists_congr fun _ ↦ h₁.head_iff nofun nofun
  rw [hnames]
  refine and_congr_right fun ⟨name, hname⟩ ↦ ?_
  have h₂ := h₁.drop_one (h₁.head_eq_of_ne (by rw [hname]; nofun))
  rw [List.drop_drop, List.drop_drop] at h₂
  exact h₂.head_iff nofun nofun

theorem keeps_atMethod : Keeps ℓ atMethod atMethod fun b b' ↦ b' = b := by
  intro ts ts' hts b rest hrun
  rw [atMethod_eq] at hrun
  cases hrun
  exact ⟨_, ts', atMethod_eq ts', hts.joined.beginsMethod_eq, hts⟩

/-- Behind a `return` both readers see the same token. -/
theorem mirrors_expect_return : Mirrors (Near ℓ) (expect (.keyword .returnWord))
    (expect (.keyword .returnWord)) (fun _ _ ↦ 0 < ℓ)
    fun _ ts ts' ↦ Near (ℓ - 1) ts ts' ∧ head ts' = head ts := by
  refine mirrors_currentIs (plain_keyword (by decide)) (fun t t' hpos ↦ ?_) .unexpected
  have hadvance : Mirrors (Ahead (.keyword .returnWord) ℓ) advance advance (fun _ _ ↦ True)
      fun _ ts ts' ↦ Near (ℓ - 1) ts ts' ∧ head ts' = head ts := by
    rintro ts ts' hts a rest ⟨⟩
    refine ⟨_, _, rfl, trivial, hts.near.drop_one (hts.head_eq'.trans hts.head_eq.symm), ?_⟩
    exact hts.near.joined.head_drop_one hts.head_eq
  exact hadvance.bind fun _ _ _ ↦ .pure hpos fun _ _ ↦ id

theorem mirrors_current_level {f f' : Located → GrammarM α}
    (h : ∀ t t' : Located, t'.token = t.token → Mirrors (Near ℓ) (f t) (f' t') R P') :
    Mirrors (fun ts ts' ↦ Near ℓ ts ts' ∧ head ts' = head ts) (current >>= f) (current >>= f')
      R P' :=
  fun ts ts' hts ↦ h (ts.headD ⟨.eof, .none⟩) (ts'.headD ⟨.eof, .none⟩) hts.2 ts ts' hts.1

theorem statementEnd_of_head_eq {inBlock : Bool} {ts ts' rest : List Located} {u : Unit}
    (hhead : head ts' = head ts) (hrun : statementEnd inBlock ts = .ok u rest) :
    rest = ts ∧ statementEnd inBlock ts' = .ok u ts' := by
  have hcurrent (us : List Located) (f : Located → GrammarM Unit) :
      (current >>= f) us = f (us.headD ⟨.eof, .none⟩) us := rfl
  have hhead : (ts'.headD ⟨.eof, .none⟩).token = (ts.headD ⟨.eof, .none⟩).token := hhead
  rw [statementEnd, hcurrent] at hrun ⊢
  rw [hhead]
  generalize (ts.headD ⟨.eof, .none⟩).token = token at hrun ⊢
  split at hrun
  next =>
    cases hrun
    exact ⟨rfl, rfl⟩
  next =>
    cases hrun
    exact ⟨rfl, rfl⟩
  next =>
    cases hrun
    exact ⟨rfl, rfl⟩
  next =>
    split at hrun
    next h =>
      cases hrun
      rw [if_pos h]
      exact ⟨rfl, rfl⟩
    next => cases hrun
  next => cases hrun

/-- Where a newline ends a statement and the word behind it does not, what follows has to fail. -/
theorem mirrors_statementEnd {inBlock : Bool} {y y' : GrammarM α} (hy : Mirrors (Near ℓ) y y' R P')
    (hgap : ∀ ts, head (ts.dropWhile (·.token.isSeparator)) = .keyword .elseWord →
      ∀ a rest, y ts ≠ .ok a rest) :
    Mirrors (Near ℓ) (do statementEnd inBlock; y) (do statementEnd inBlock; y') R P' := by
  intro ts ts' hts a rest hrun
  obtain ⟨_, mid, hend, hrest⟩ := bind_eq_ok_iff.mp hrun
  rcases hts.joined.head_eq with heq | ⟨hnewline, helse⟩
  · obtain ⟨rfl, hend'⟩ := statementEnd_of_head_eq heq hend
    obtain ⟨a', rest', hrun', hR, hP⟩ := hy _ ts' hts a rest hrest
    exact ⟨a', rest', bind_eq_ok_iff.mpr ⟨_, ts', hend', hrun'⟩, hR, hP⟩
  · obtain ⟨rfl, -⟩ := statementEnd_of_head_eq rfl hend
    exact absurd hrest (hgap _ (hts.joined.head_dropWhile_of_else helse) a rest)

theorem mirrors_get {f f' : List Located → GrammarM α}
    (h : ∀ ts ts', Near ℓ ts ts' →
      Mirrors (fun us us' ↦ us = ts ∧ us' = ts') (f ts) (f' ts') R P') :
    Mirrors (Near ℓ) (get >>= f) (get >>= f') R P' :=
  fun ts ts' hts ↦ h ts ts' hts ts ts' ⟨rfl, rfl⟩

theorem mirrors_set {P : List Located → List Located → Prop} {us us' : List Located}
    (h : Near ℓ us us') : Mirrors P (set us) (set us') (fun _ _ ↦ True) fun _ ↦ Near ℓ := by
  rintro ts ts' hts a rest ⟨⟩
  exact ⟨⟨⟩, us', rfl, trivial, h⟩

end

/-! ## Statements without statements in them -/

section

open Stmt

variable {n m ℓ : Nat}

theorem keeps_commandArguments {done done' : List Expr} (hdone : Expr.AllSame done done')
    (hm : 8 * ℓ + 1 ≤ m) :
    Keeps ℓ (commandArguments n done) (commandArguments m done') Expr.AllSame := by
  induction n generalizing m ℓ done done' with
  | zero =>
    rw [Keeps, commandArguments]
    exact .tooDeep
  | succ n ih =>
    obtain ⟨m, rfl⟩ := exists_eq_succ_of_enough hm
    rw [commandArguments, commandArguments]
    refine mirrors_accept_bind (plain_symbol _) (fun hpos ↦ ?_) (.pure hdone.reverse fun _ _ ↦ id)
    refine keeps_skipNewlines.bind fun _ _ _ ↦ ((expressionsMirror n).expression (by omega)).bind ?_
    rintro e e' ⟨he, -⟩
    exact (ih (hdone.cons he) (by omega)).leaving (by omega)

/-- The arguments of a call without parentheses. -/
theorem keeps_command {f f' : Expr → List Expr → Stmt}
    (h : ∀ first first' es es', Expr.AllSame es es' → (f first es).Same (f' first' es'))
    (hm : 8 * ℓ + 4 ≤ m) :
    Keeps ℓ (do
      let first ← expression n
      let arguments ← commandArguments n [first]
      return f first arguments)
      (do
      let first ← expression m
      let arguments ← commandArguments m [first]
      return f' first arguments) Stmt.Same := by
  refine ((expressionsMirror n).expression hm).bind ?_
  rintro first first' ⟨hfirst, -⟩
  have hdone : Expr.AllSame [first] [first'] := .cons hfirst rfl
  refine (keeps_commandArguments hdone (by omega)).bind fun es es' hes ↦ ?_
  exact .pure_le (h first first' es es' hes) (by omega)

theorem consumes_expressionStatement (hm : 8 * ℓ + 4 ≤ m) :
    Consumes ℓ (expressionStatement n) (expressionStatement m) Stmt.Same := by
  rw [expressionStatement, expressionStatement]
  refine ((expressionsMirror n).expression hm).bind ?_
  rintro e e' ⟨he, hpos⟩
  have hcommand {f f' : Expr → List Expr → Stmt}
      (h : ∀ first first' es es', Expr.AllSame es es' → (f first es).Same (f' first' es')) :
      Mirrors (Near (ℓ - 1)) (do
        let first ← expression n
        let arguments ← commandArguments n [first]
        return f first arguments)
        (do
        let first ← expression m
        let arguments ← commandArguments m [first]
        return f' first arguments) (fun s s' ↦ s.Same s' ∧ 0 < ℓ) fun _ ↦ Near (ℓ - 1) :=
    (keeps_command h (by omega)).imp (fun _ _ hs ↦ ⟨hs, hpos⟩) (Nat.le_refl _)
  refine mirrors_current (fun t t' heq _ ↦ ?_) fun t t' ht ht' ↦ ?_
  · rw [heq]
    refine Mirrors.ahead (.ite (fun _ ↦ ?_) fun _ ↦ ?_)
    · split
      next name span =>
        obtain ⟨span', rfl⟩ := he.exists_var
        exact hcommand fun _ _ _ _ hes ↦ .expression (.call hes)
      next receiver name span =>
        obtain ⟨receiver', span', rfl, hreceiver⟩ := he.exists_property
        exact hcommand fun _ _ _ _ hes ↦ .expression (.invoke hreceiver hes)
      next => exact .unexpected
    · exact .pure ⟨.expression he, hpos⟩ fun _ _ ↦ id
  · rw [ht, ht']
    exact .pure ⟨.expression he, hpos⟩ fun _ _ ↦ id

theorem consumes_declaration (hm : 8 * ℓ + 4 ≤ m) :
    Consumes ℓ (declaration n) (declaration m) Stmt.Same := by
  rw [declaration, declaration]
  refine keeps_atMethod.bind ?_
  rintro _ b rfl
  dsimp only
  refine .ite (fun _ ↦ ?_) fun _ ↦ ?_
  · rintro ts ts' hts a rest ⟨⟩
  · refine (consumes_expect (plain_keyword (by decide))).bind ?_
    rintro _ _ ⟨-, hpos⟩
    refine consumes_identifier.bind ?_
    rintro binder binder' ⟨hbinder, -⟩
    rw [hbinder]
    refine mirrors_accept_bind (plain_symbol _) (fun _ ↦ ?_) ?_
    · refine keeps_skipNewlines.bind fun _ _ _ ↦ ?_
      refine ((expressionsMirror n).expression (by omega)).bind ?_
      rintro value value' ⟨hvalue, -⟩
      exact .pure_le ⟨.declare hvalue, hpos⟩ (by omega)
    · exact .pure_le ⟨rfl, hpos⟩ (by omega)

theorem consumes_condition (hm : 8 * ℓ + 1 ≤ m) :
    Consumes ℓ (condition n) (condition m) Expr.Same := by
  rw [condition, condition]
  refine (consumes_expect (plain_symbol _)).bind ?_
  rintro _ _ ⟨-, hpos⟩
  refine keeps_skipNewlines.bind fun _ _ _ ↦ ((expressionsMirror n).expression (by omega)).bind ?_
  rintro e e' ⟨he, -⟩
  refine keeps_skipNewlines.bind fun _ _ _ ↦ (consumes_expect (plain_symbol _)).bind fun _ _ _ ↦ ?_
  refine keeps_skipNewlines.bind fun _ _ _ ↦ ?_
  exact .pure_le ⟨he, hpos⟩ (by omega)

theorem consumes_result (hm : 8 * ℓ + 1 ≤ m) : Consumes ℓ (result n) (result m) Stmt.Same := by
  rw [result, result]
  refine mirrors_expect_return.bind fun start start' hpos ↦ mirrors_current_level fun t t' heq ↦ ?_
  rw [heq]
  split
  case h_5 =>
    refine ((expressionsMirror n).expression (by omega)).bind ?_
    rintro value value' ⟨hvalue, -⟩
    exact .pure_le ⟨.result hvalue, hpos⟩ (by omega)
  all_goals exact .pure ⟨rfl, hpos⟩ fun _ _ ↦ id

end

/-! ## Statements -/

/-- A block that was read. -/
def SameBlock (p p' : List Stmt × Span) : Prop := Stmt.AllSame p.1 p'.1

/-- The functions for statements, where those of the first run have the bound `n`, and those of the
second one a bound that is enough for the tokens left to it. -/
structure StatementsMirror (n : Nat) : Prop where
  statement : ∀ {m ℓ}, 8 * ℓ + 5 ≤ m → Consumes ℓ (statement n) (statement m) Stmt.Same
  block : ∀ {m ℓ}, 8 * ℓ + 1 ≤ m → Consumes ℓ (block n) (block m) SameBlock
  blockBody : ∀ {m ℓ} {done done' : List Stmt}, Stmt.AllSame done done' → 8 * ℓ + 6 ≤ m →
    Keeps ℓ (blockBody n done) (blockBody m done') Stmt.AllSame

theorem statementsMirror_zero : StatementsMirror 0 where
  statement _ := by rw [Consumes, statement]; exact .tooDeep
  block _ := by rw [Consumes, block]; exact .tooDeep
  blockBody _ _ := by rw [Keeps, blockBody]; exact .tooDeep

namespace StatementsMirror

variable {n m ℓ : Nat}

/-- What comes behind the branch of a conditional. -/
theorem mirrors_alternative (h : StatementsMirror n) {test test' : Expr} {body body' : Stmt}
    (htest : test.Same test') (hbody : body.Same body') (span span' : Span) (hm : 8 * ℓ ≤ m + 3) :
    Keeps ℓ (do
      match (← get).dropWhile (·.token == .newline) with
      | ⟨.keyword .elseWord, _⟩ :: rest =>
        set rest
        skipNewlines
        let alternative ← Grammar.statement n
        return .ifElse test body alternative (span.merge alternative.span)
      | _ => return .ifThen test body span) (do
      match (← get).dropWhile (·.token == .newline) with
      | ⟨.keyword .elseWord, _⟩ :: rest =>
        set rest
        skipNewlines
        let alternative ← Grammar.statement m
        return .ifElse test' body' alternative (span'.merge alternative.span)
      | _ => return .ifThen test' body' span') Stmt.Same := by
  refine mirrors_get fun ts ts' hts ↦ ?_
  have hskip := hts.dropWhile (p := (· == .newline)) rfl
  have hne := head_dropWhile_ne ts (p := (· == .newline)) rfl
  have hstay : Mirrors (fun us us' ↦ us = ts ∧ us' = ts') (pure (.ifThen test body span))
      (pure (.ifThen test' body' span')) Stmt.Same fun _ ↦ Near ℓ := by
    refine .pure (.ifThen htest hbody) ?_
    rintro _ _ ⟨rfl, rfl⟩
    exact hts
  generalize ts.dropWhile (·.token == .newline) = us at hskip hne ⊢
  generalize ts'.dropWhile (·.token == .newline) = us' at hskip ⊢
  obtain ⟨hjoined, hshort⟩ := hskip
  cases hjoined with
  | nil => exact hstay
  | @cons t t' us us' token level rest =>
    obtain ⟨k, place⟩ := t
    obtain ⟨k', place'⟩ := t'
    obtain rfl : k' = k := token
    have hfew : us'.length < ℓ := Nat.lt_of_succ_le hshort
    by_cases hk : k' = .keyword .elseWord
    · subst hk
      have hnear : Near (ℓ - 1) us us' := ⟨rest, Nat.le_sub_one_of_lt hfew⟩
      refine (mirrors_set hnear).bind fun _ _ _ ↦ keeps_skipNewlines.bind fun _ _ _ ↦ ?_
      refine (h.statement (by omega)).bind ?_
      rintro alternative alternative' ⟨halternative, -⟩
      exact .pure_le (.ifElse htest hbody halternative) (by omega)
    · split
      next heq => exact absurd (congrArg Located.token (List.cons.inj heq).1) hk
      next =>
        split
        next heq => exact absurd (congrArg Located.token (List.cons.inj heq).1) hk
        next => exact hstay
  | gap token rest next => exact absurd token hne

theorem statement_succ (h : StatementsMirror n) (hm : 8 * ℓ + 5 ≤ m) :
    Consumes ℓ (Grammar.statement (n + 1)) (Grammar.statement m) Stmt.Same := by
  obtain ⟨m, rfl⟩ := exists_eq_succ_of_enough hm
  rw [Grammar.statement, Grammar.statement]
  refine mirrors_current (fun t t' heq hpos ↦ ?_) fun t t' ht ht' ↦ ?_
  · rw [heq]
    have hfew {x x' : GrammarM Stmt} (hx : Consumes ℓ x x' Stmt.Same) :
        Mirrors (Ahead t.token ℓ) x x' (fun s s' ↦ s.Same s' ∧ 0 < ℓ) fun _ ↦ Near (ℓ - 1) :=
      hx.ahead
    split
    next => exact hfew (consumes_declaration (by omega))
    next htoken =>
      have hpos : 0 < ℓ := hpos fun heof ↦ by cases htoken.symm.trans heof
      refine mirrors_advance.bind fun _ _ _ ↦ (consumes_condition (by omega)).bind ?_
      rintro test test' ⟨htest, -⟩
      refine (h.statement (by omega)).bind ?_
      rintro body body' ⟨hbody, -⟩
      exact (h.mirrors_alternative htest hbody _ _ (by omega)).imp (fun _ _ hs ↦ ⟨hs, hpos⟩)
        (by omega)
    next htoken =>
      have hpos : 0 < ℓ := hpos fun heof ↦ by cases htoken.symm.trans heof
      refine mirrors_advance.bind fun _ _ _ ↦ (consumes_condition (by omega)).bind ?_
      rintro test test' ⟨htest, -⟩
      refine (h.statement (by omega)).bind ?_
      rintro body body' ⟨hbody, -⟩
      exact .pure_le ⟨.loop htest hbody, hpos⟩ (by omega)
    next => exact hfew (consumes_result (by omega))
    next =>
      refine hfew ((h.block (by omega)).bind ?_)
      rintro ⟨body, span⟩ ⟨body', span'⟩ ⟨hbody, hpos⟩
      exact .pure ⟨.block hbody, hpos⟩ fun _ _ ↦ id
    next => exact .fail
    next => exact .fail
    next => exact hfew (consumes_expressionStatement (by omega))
  · rw [ht, ht']
    exact consumes_expressionStatement (by omega)

theorem block_succ (h : StatementsMirror n) (hm : 8 * ℓ + 1 ≤ m) :
    Consumes ℓ (Grammar.block (n + 1)) (Grammar.block m) SameBlock := by
  obtain ⟨m, rfl⟩ := exists_eq_succ_of_enough hm
  rw [Grammar.block, Grammar.block]
  refine (consumes_expect (plain_symbol _)).bind ?_
  rintro start start' ⟨-, hpos⟩
  refine (h.blockBody (show Stmt.AllSame [] [] from rfl) (by omega)).bind fun body body' hbody ↦ ?_
  refine (consumes_expect (plain_symbol _)).bind fun _ _ _ ↦ ?_
  exact .pure_le ⟨hbody, hpos⟩ (by omega)

/-- A block cannot go on with the word. -/
theorem blockBody_ne_ok {done : List Stmt} {ts : List Located}
    (hts : head (ts.dropWhile (·.token.isSeparator)) = .keyword .elseWord) :
    ∀ body rest, Grammar.blockBody n done ts ≠ .ok body rest := by
  intro body rest hrun
  cases n with
  | zero =>
    rw [Grammar.blockBody] at hrun
    cases hrun
  | succ n =>
    have hskip (f : Unit → GrammarM (List Stmt)) :
        (skipSeparators >>= f) ts = f () (ts.dropWhile (·.token.isSeparator)) := rfl
    rw [Grammar.blockBody, hskip] at hrun
    refine rejects_current (fun t ht ↦ ?_) _ hts body rest hrun
    rw [ht]
    exact rejects_statement.bind

theorem blockBody_succ (h : StatementsMirror n) {done done' : List Stmt}
    (hdone : Stmt.AllSame done done') (hm : 8 * ℓ + 6 ≤ m) :
    Keeps ℓ (Grammar.blockBody (n + 1) done) (Grammar.blockBody m done') Stmt.AllSame := by
  obtain ⟨m, rfl⟩ := exists_eq_succ_of_enough hm
  have hstatement : Keeps ℓ (do
      let s ← Grammar.statement n
      statementEnd true
      Grammar.blockBody n (s :: done)) (do
      let s ← Grammar.statement m
      statementEnd true
      Grammar.blockBody m (s :: done')) Stmt.AllSame := by
    refine (h.statement (by omega)).bind ?_
    rintro s s' ⟨hs, hpos⟩
    refine mirrors_statementEnd ?_ fun _ ↦ blockBody_ne_ok
    exact (h.blockBody (hdone.cons hs) (by omega)).leaving (by omega)
  rw [Grammar.blockBody, Grammar.blockBody]
  refine keeps_skipSeparators.bind fun _ _ _ ↦ ?_
  refine mirrors_current (fun t t' heq _ ↦ ?_) fun t t' ht ht' ↦ ?_
  · rw [heq]
    split
    next => exact .pure hdone.reverse fun _ _ hts ↦ hts.near
    next => exact .pure hdone.reverse fun _ _ hts ↦ hts.near
    next => exact hstatement.ahead
  · rw [ht, ht']
    exact hstatement

end StatementsMirror

theorem statementsMirror (n : Nat) : StatementsMirror n := by
  induction n with
  | zero => exact statementsMirror_zero
  | succ n h => exact {
      statement := h.statement_succ
      block := h.block_succ
      blockBody := h.blockBody_succ }

end Grammar

end BuildScript
