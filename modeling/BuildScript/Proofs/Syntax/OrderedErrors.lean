import BuildScript.Proofs.Syntax.LaidScripts

/-!
# Syntax errors come in source order

Lexical errors are pieces of the text, one behind another, and none of them is empty. Errors of the
grammar come from rounds of reading, at most one from each, and each is behind the errors of the
rounds before. Either way the errors of a text begin at strictly increasing offsets. So do the
imports of a script that was parsed, which matters when they cannot be resolved.

Every round takes a token, so that reading ends, and the bound on the depth of calls is never too
low: no error says so.
-/

namespace BuildScript

/-- Spans of a text, each of which begins behind the beginning of the one before. -/
structure InOrder (text : List Char) (spans : List Span) : Prop where
  marks : ∀ s ∈ spans, s.Marks text
  starts : spans.Pairwise (·.start < ·.start)

namespace InOrder

variable {text : List Char} {spans spans' : List Span}

theorem nil : InOrder text [] := ⟨List.forall_mem_nil _, .nil⟩

theorem sublist (h : InOrder text spans) (hsub : spans'.Sublist spans) : InOrder text spans' :=
  ⟨fun s hs ↦ h.marks s (hsub.subset hs), h.starts.sublist hsub⟩

/-- The first of the spans is in the first of their lines. -/
theorem min?_line (h : InOrder text spans) (hlines : 1 + text.count '\n' < 2 ^ 32) :
    (spans.map (·.line)).min? = spans.head?.map (·.line) := by
  rw [← List.head?_map]
  refine List.min?_eq_head? (List.pairwise_map.mpr ?_)
  refine h.starts.imp_of_mem fun hs ht hlt ↦ if_pos ?_
  exact (h.marks _ hs).line_le (h.marks _ ht) hlt.le hlines

end InOrder

/-! ## Lexical errors -/

theorem inOrder_piecesFrom (front text : List Char) (pieces : Array Piece) :
    ∃ more, (piecesFrom (Place.after {} front) pieces text).1.toList = pieces.toList ++ more ∧
      InOrder (front ++ text) (more.map (·.span)) ∧
      ∀ p ∈ more, byteLength front ≤ p.span.start := by
  generalize hplace : Place.after {} front = place
  fun_induction piecesFrom place pieces text generalizing front with
  | case1 place pieces =>
    exact ⟨[], (List.append_nil _).symm, .nil, List.forall_mem_nil _⟩
  | case2 place pieces c cs lexeme stop ih =>
    have htext : lexeme.text ++ lexeme.rest = c :: cs := Lexeme.scan_append c cs
    have hpos : 0 < byteLength lexeme.text := byteLength_pos (Lexeme.scan_text_ne_nil c cs)
    have hstop : Place.after {} (front ++ lexeme.text) = stop := by
      rw [Place.after_append, hplace]
    have hspan : Span.between place stop = .ofStretch front lexeme.text := by
      rw [← hplace, ← hstop, between_after]
    obtain ⟨more, hpieces, horder, hle⟩ := ih (front ++ lexeme.text) hstop
    rw [List.append_assoc, htext] at horder
    rw [byteLength_append] at hle
    refine ⟨⟨lexeme.reading, .between place stop⟩ :: more, ?_, ⟨?_, ?_⟩, ?_⟩
    · rw [hpieces, Array.toList_push, List.append_assoc]
      rfl
    · refine List.forall_mem_cons.mpr ⟨⟨front, lexeme.text, lexeme.rest, ?_, hspan⟩, horder.marks⟩
      rw [htext]
    · refine .cons (List.forall_mem_map.mpr fun p hp ↦ ?_) horder.starts
      rw [hspan]
      exact Nat.lt_of_lt_of_le (Nat.lt_add_of_pos_right hpos) (hle p hp)
    · refine List.forall_mem_cons.mpr ⟨?_, fun p hp ↦ Nat.le_trans (Nat.le_add_right _ _) (hle p hp)⟩
      rw [hspan]
      exact Nat.le_refl _

theorem sublist_spans_of_errors (pieces : List Piece) :
    ((pieces.filterMap Piece.error?).map (·.span)).Sublist (pieces.map (·.span)) := by
  induction pieces with
  | nil => exact .slnil
  | cons p pieces ih =>
    rw [List.map_cons]
    cases herror : p.error? with
    | none =>
      rw [List.filterMap_cons_none herror]
      exact ih.cons _
    | some e =>
      have hspan : e.span = p.span := by
        rw [Piece.error?] at herror
        split at herror
        · cases herror
          rfl
        · cases herror
      rw [List.filterMap_cons_some herror, List.map_cons, hspan]
      exact ih.cons_cons _

theorem inOrder_of_tokenize {text : List Char} {errors : List LexError}
    (h : tokenize text = .error errors) : InOrder text (errors.map (·.span)) := by
  obtain ⟨more, hpieces, horder, -⟩ := inOrder_piecesFrom [] text #[]
  change (piecesFrom {} #[] text).1.toList = more at hpieces
  rw [tokenize_eq] at h
  dsimp only at h
  rw [hpieces] at h
  split at h
  next => cases h
  next =>
    cases h
    exact horder.sublist (sublist_spans_of_errors more)

/-! ## Errors of the grammar -/

namespace Grammar

variable {text : List Char} {n : Nat} {script : Script} {errors : List SyntaxError}
  {ts : List Located}

theorem inOrder_of_parseTokens (h : Queue text ts) (hparse : parseTokens ts = .error errors) :
    InOrder text (errors.map (·.span)) ∧ ∀ e ∈ errors, e.fault ≠ .nestedTooDeeply := by
  obtain ⟨last, found, rest, hrounds, hstanding, -, -⟩ := exists_standing h (ts.length + 1)
  rw [parseTokens_eq, hrounds] at hparse
  dsimp only at hparse
  split at hparse
  · cases hparse
  · cases hparse
    refine ⟨⟨?_, ?_⟩, fun e he ↦ (hstanding.faults e (List.mem_reverse.mp he)).1⟩
    · refine List.forall_mem_map.mpr fun e he ↦ ?_
      exact (hstanding.faults e (List.mem_reverse.mp he)).2
    · exact List.pairwise_map.mpr (List.pairwise_reverse.mpr hstanding.ordered)

theorem items_add_one (n rounds : Nat) (script : Script) (errors : List SyntaxError)
    (ts : List Located) : items n (rounds + 1) script errors ts =
      let s := items n rounds script errors ts
      items n 1 s.1 s.2.1 s.2.2 := by
  induction rounds generalizing script errors ts with
  | zero => rfl
  | succ rounds ih =>
    by_cases hend : AtEnd (skip ts)
    · have hskip : skip (skip ts) = skip ts := hend.skip_eq
      rw [items_of_atEnd hend, items_of_atEnd hend]
      dsimp only
      rw [← skip, items_of_atEnd (by rw [← skip, hskip]; exact hend), ← skip, hskip]
    · obtain ⟨script', errors', ts', -, hitems⟩ := exists_round n script errors hend
      rw [hitems, hitems, ih]

/-- One more round: unless nothing is left to be read, it takes a token at least, also if it leaves
an error, and it leaves one error at most. -/
structure Advances (s s' : Script × List SyntaxError × List Located) : Prop where
  suffix : s'.2.2 <:+ s.2.2
  shorter : AtEnd (skip s.2.2) ∨ s'.2.2.length < s.2.2.length
  errors : s'.2.1 = s.2.1 ∨ ∃ e, s'.2.1 = e :: s.2.1

theorem Standing.advances {lo : Nat} (h : Standing text lo script errors ts)
    (hn : 8 * ts.length + 5 ≤ n) :
    Advances (script, errors, ts) (Grammar.items n 1 script errors ts) := by
  by_cases hend : AtEnd (skip ts)
  · rw [items_of_atEnd hend]
    exact ⟨h.queue.left_skip.suffix, .inl hend, .inl rfl⟩
  · obtain ⟨script', errors', ts', hround, hitems⟩ := exists_round n script errors hend
    obtain ⟨-, hsuffix, hlt⟩ := h.round hn hend hround
    rw [hitems 0]
    refine ⟨hsuffix, .inr hlt, ?_⟩
    rcases hround with _ | _ | _
    · exact .inr ⟨_, rfl⟩
    · exact .inr ⟨_, rfl⟩
    · exact .inl rfl

/-- Reading the tokens of a text makes progress with each round, and comes to the end of the text
within as many rounds as there are tokens, and one. -/
theorem afterRounds_advances (h : Queue text ts) :
    (∀ rounds, Advances (afterRounds ts rounds) (afterRounds ts (rounds + 1))) ∧
      AtEnd (afterRounds ts (ts.length + 1)).2.2 := by
  constructor
  · intro rounds
    obtain ⟨last, found, rest, hrounds, hstanding, hsuffix, -⟩ := exists_standing h rounds
    have hlength := hsuffix.length_le
    have hnext : afterRounds ts (rounds + 1) = _ := items_add_one _ rounds _ _ _
    rw [hnext, ← afterRounds, hrounds]
    exact hstanding.advances (by omega)
  · obtain ⟨last, found, rest, hrounds, -, -, hstop⟩ := exists_standing h (ts.length + 1)
    rw [hrounds]
    exact hstop (Nat.lt_succ_self _)

end Grammar

/-! ## Errors and imports of a text -/

theorem inOrder_of_parse_error {text : String} {errors : List SyntaxError}
    (h : parse text = .error errors) : InOrder text.toList (errors.map (·.span)) ∧
      ∀ e ∈ errors, e.fault ≠ .nestedTooDeeply := by
  rw [parse] at h
  split at h
  next tokens htokens =>
    exact Grammar.inOrder_of_parseTokens (.of_tiles (tiles_of_tokenize htokens) rfl) h
  next lexErrors hlex =>
    cases h
    constructor
    · rw [List.map_map]
      exact inOrder_of_tokenize hlex
    · refine List.forall_mem_map.mpr fun _ _ ↦ ?_
      rintro ⟨⟩

theorem inOrder_imports {text : String} {script : Script} (h : parse text = .ok script) :
    InOrder text.toList (script.imports.map (·.span)) := by
  rw [parse] at h
  split at h
  next tokens htokens =>
    have hqueue := Grammar.Queue.of_tiles (tiles_of_tokenize htokens) rfl
    obtain ⟨-, inside, -, ordered, below⟩ := Grammar.laid_of_parseTokens hqueue h
    have hmem {i : Import} (hi : i ∈ script.imports) :
        Part.classImport i ∈ (Part.script script).children :=
      List.mem_flatten.mpr ⟨_, List.mem_cons_of_mem _ List.mem_cons_self, List.mem_map_of_mem hi⟩
    constructor
    · refine List.forall_mem_map.mpr fun i hi ↦ ?_
      obtain ⟨marks, -⟩ := below _ (hmem hi)
      exact marks
    · have hordered := ordered (script.imports.map .classImport)
        (List.mem_cons_of_mem _ List.mem_cons_self)
      refine List.pairwise_map.mpr ((List.pairwise_map.mp hordered).imp_of_mem fun hi _ hbefore ↦ ?_)
      exact Nat.lt_of_lt_of_le (inside _ (hmem hi)).2.1 hbefore
  next => cases h

end BuildScript
