import BuildScript.Proofs.Syntax.JoinedScripts
import BuildScript.Proofs.Syntax.LaidStatements

/-!
# Scripts are laid out, and their errors are in order

The items of a script are read in rounds. An item that was read goes to one of the lists of the
script, and stands behind all that the script had before; an item that failed leaves an error, and
reading goes on behind the next separator. Whichever happens, the round takes at least one token.

## The invariant

`Standing` says how a script, its errors and the tokens still to be read stand in the text between
two rounds. The nodes that the script has so far lie in front of the next token, any two of them
apart and each list in order. The errors do too, the last one first, unless nothing follows but the
end of the text: an error may be about the separator in front of the next item, and then that item
is behind the error only because separators are skipped.
-/

namespace BuildScript

/-- The script with the lists that are kept last first turned around. -/
def Script.turned (script : Script) : Script :=
  { script with statements := script.statements.reverse, methods := script.methods.reverse }

/-- Lists of nodes between two offsets of a text, each list in order, and any two nodes apart. -/
structure Table (text : List Char) (lo hi : Nat) (groups : List (List Part)) : Prop where
  inside : ∀ p ∈ groups.flatten,
    lo ≤ p.span.start ∧ p.span.start < p.span.stop ∧ p.span.stop ≤ hi
  apart : groups.flatten.Pairwise Part.Apart
  ordered : ∀ group ∈ groups, group.Pairwise Part.Before
  laid : ∀ p ∈ groups.flatten, Laid text p

namespace Table

variable {text : List Char} {lo hi hi' : Nat} {groups before after : List (List Part)}
  {group : List Part} {p : Part}

theorem mono (h : Table text lo hi groups) (hle : hi ≤ hi') : Table text lo hi' groups where
  inside p hp := by
    obtain ⟨hlo, hpos, hhi⟩ := h.inside p hp
    exact ⟨hlo, hpos, Nat.le_trans hhi hle⟩
  apart := h.apart
  ordered := h.ordered
  laid := h.laid

/-- One more node, behind all of the table, at the end of one of the lists. -/
theorem concat (h : Table text lo hi (before ++ group :: after))
    (hrow : Row text hi hi' [p]) (hlo : lo ≤ hi) :
    Table text lo hi' (before ++ (group ++ [p]) :: after) := by
  obtain ⟨hp, hpos, hp'⟩ := hrow.inside p List.mem_cons_self
  have hperm : (before ++ (group ++ [p]) :: after).flatten.Perm
      (p :: (before ++ group :: after).flatten) := by
    rw [List.flatten_append, List.flatten_append, List.flatten_cons, List.flatten_cons,
      List.append_assoc group, ← List.append_assoc before.flatten group,
      ← List.append_assoc before.flatten group]
    exact List.perm_middle
  have hbefore : ∀ q ∈ (before ++ group :: after).flatten, q.Before p := fun q hq ↦
    Nat.le_trans (h.inside q hq).2.2 hp
  refine ⟨fun q hq ↦ ?_, ?_, fun g hg ↦ ?_, fun q hq ↦ ?_⟩
  · rcases List.mem_cons.mp (hperm.mem_iff.mp hq) with rfl | hq
    · exact ⟨Nat.le_trans hlo hp, hpos, hp'⟩
    · obtain ⟨hstart, hne, hstop⟩ := h.inside q hq
      exact ⟨hstart, hne, by omega⟩
  · refine (hperm.pairwise_iff Part.Apart.symm).mpr (.cons (fun q hq ↦ ?_) h.apart)
    exact .inr (hbefore q hq)
  · rcases List.mem_append.mp hg with hg | hg
    · exact h.ordered g (List.mem_append_left _ hg)
    · rcases List.mem_cons.mp hg with rfl | hg
      · refine List.pairwise_append.mpr ⟨h.ordered group (by simp), List.pairwise_singleton _ _, ?_⟩
        intro q hq r hr
        rw [List.mem_singleton.mp hr]
        exact hbefore q (List.mem_flatten.mpr ⟨group, by simp, hq⟩)
      · exact h.ordered g (List.mem_append_right _ (List.mem_cons_of_mem _ hg))
  · rcases List.mem_cons.mp (hperm.mem_iff.mp hq) with rfl | hq
    · exact hrow.laid q List.mem_cons_self
    · exact h.laid q hq

end Table

namespace Grammar

variable {text : List Char} {n : Nat} {script script' : Script}

/-! ## Items -/

/-- The node was added at the end of one of the lists of the script. -/
def Adds (p : Part) (script script' : Script) : Prop :=
  ∃ before group after, (Part.script script.turned).groups = before ++ group :: after ∧
    (Part.script script'.turned).groups = before ++ (group ++ [p]) :: after

theorem adds_statement (s : Stmt) :
    Adds (.stmt s) script { script with statements := s :: script.statements } := by
  refine ⟨_ :: _ :: [_], script.statements.reverse.map .stmt, _, rfl, ?_⟩
  simp [Script.turned, Part.groups]

theorem adds_method (m : Method) :
    Adds (.method m) script { script with methods := m :: script.methods } := by
  refine ⟨_ :: _ :: _ :: [_], script.methods.reverse.map .method, _, rfl, ?_⟩
  simp [Script.turned, Part.groups]

theorem adds_import (i : Import) :
    Adds (.classImport i) script { script with imports := script.imports ++ [i] } := by
  refine ⟨[_], script.imports.map .classImport, _, rfl, ?_⟩
  simp [Script.turned, Part.groups]

theorem adds_starImport (i : StarImport) :
    Adds (.packageImport i) script { script with starImports := script.starImports ++ [i] } := by
  refine ⟨_ :: [_], script.starImports.map .packageImport, _, rfl, ?_⟩
  simp [Script.turned, Part.groups]

theorem adds_package {name : Named} (h : isBlankScript script = true) :
    Adds (.package name) script { script with package := some name } := by
  have hnone : script.package = none := by
    simp only [isBlankScript, Bool.and_eq_true] at h
    exact Option.isNone_iff_eq_none.mp h.1.1.1.1
  refine ⟨[], [], _, by simp [Script.turned, Part.groups, hnone]; rfl, ?_⟩
  simp [Script.turned, Part.groups]

/-- What was read is one more node of the script. -/
def Grows (text : List Char) (script : Script) (ts : List Located) (script' : Script)
    (rest : List Located) : Prop :=
  ∃ p, Placed text ts rest p ∧ Adds p script script'

theorem lays_importInto {ts : List Located} (hn : 8 * ts.length ≤ n) :
    Lays text ts (importInto script n) ts (Grows text script ts) := by
  refine .expect nofun fun start mid hstart ↦ .current fun next hnext ↦ ?_
  have hmid := hstart.shorter
  refine .ite (fun _ ↦ .fail_bind (.failHere nofun hnext)) fun _ ↦ ?_
  refine .call (lays_qualifiedName (by omega)) fun name rest hname ↦ ?_
  have hspan := hstart.merge hstart.queue.left hname
  split
  next => exact .pure fun _ ↦ ⟨.packageImport ⟨_, _⟩, .leaf hspan rfl, adds_starImport _⟩
  next =>
    refine .accept nofun (fun s behind hs ↦ ?_) ?_
    · refine .identifier fun localName rest' hlocal ↦ .pure fun _ ↦ ?_
      have hspan' := hstart.merge (hname.toLeft.trans hs.toLeft) hlocal
      exact ⟨.classImport ⟨_, _, _⟩, .leaf hspan' rfl, adds_import _⟩
    · exact .pure fun _ ↦ ⟨.classImport ⟨_, _, _⟩, .leaf hspan rfl, adds_import _⟩

/-- An item that is read is one more node of the script. -/
theorem lays_item {ts : List Located} (hn : 8 * ts.length + 5 ≤ n) :
    Lays text ts (item script n) ts (Grows text script ts) := by
  refine .ofLeft fun hts ↦ .current fun next _ ↦ ?_
  split
  next =>
    refine .call (lays_package ts (by omega)) fun name rest hname ↦ ?_
    refine .ite (fun hblank ↦ .pure fun _ ↦ ⟨_, hname, adds_package hblank⟩) fun _ ↦ ?_
    exact .failAt nofun hts hname.spans hname.spans.queue.left
  next => exact lays_importInto (by omega)
  next =>
    refine .atMethod fun b ↦ .ite (fun _ ↦ ?_) fun _ ↦ ?_
    · refine .call (lays_method ts (by omega)) fun m rest hm ↦ .pure fun _ ↦ ?_
      exact ⟨_, hm, adds_method m⟩
    · refine .call ((statementsLaid text n).statement ts hn) fun s rest hs ↦ .pure fun _ ↦ ?_
      exact ⟨_, hs, adds_statement s⟩

/-! ## Rounds -/

/-- What is left in front of the next item. -/
def skip (ts : List Located) : List Located := ts.dropWhile (·.token.isSeparator)

/-- One round of reading: an item that fails, an item with something behind it, or an item. -/
inductive Round (n : Nat) : Script → List SyntaxError → List Located →
    Script → List SyntaxError → List Located → Prop
  | failed {script : Script} {errors : List SyntaxError} {ts rest : List Located} {e : SyntaxError}
    (hitem : item script n ts = .error e rest) :
    Round n script errors ts script (e :: errors) (recover rest)
  | unended {script script' : Script} {errors : List SyntaxError} {ts mid rest : List Located}
    {e : SyntaxError} (hitem : item script n ts = .ok script' mid)
    (hend : statementEnd false mid = .error e rest) :
    Round n script errors ts script' (e :: errors) (recover rest)
  | read {script script' : Script} {errors : List SyntaxError} {ts mid rest : List Located}
    (hitem : item script n ts = .ok script' mid) (hend : statementEnd false mid = .ok () rest) :
    Round n script errors ts script' errors rest

section

variable {rounds lo : Nat} {errors errors' : List SyntaxError} {e : SyntaxError}
  {ts ts' rest : List Located}

theorem exists_round (n : Nat) (script : Script) (errors : List SyntaxError)
    (hend : ¬AtEnd (skip ts)) : ∃ script' errors' ts',
      Round n script errors (skip ts) script' errors' ts' ∧
      ∀ rounds, items n (rounds + 1) script errors ts = items n rounds script' errors' ts' := by
  cases hitem : item script n (skip ts) with
  | error e rest =>
    refine ⟨_, _, _, .failed hitem, fun rounds ↦ ?_⟩
    rw [items_of_not_atEnd hend, show item script n (ts.dropWhile _) = _ from hitem]
  | ok script' mid =>
    cases hmid : statementEnd false mid with
    | error e rest =>
      refine ⟨_, _, _, .unended hitem hmid, fun rounds ↦ ?_⟩
      rw [items_of_not_atEnd hend, show item script n (ts.dropWhile _) = _ from hitem]
      dsimp only
      rw [hmid]
    | ok u rest =>
      refine ⟨_, _, _, .read hitem hmid, fun rounds ↦ ?_⟩
      rw [items_of_not_atEnd hend, show item script n (ts.dropWhile _) = _ from hitem]
      dsimp only
      rw [hmid]

/-! ### Progress -/

theorem AtEnd.skip_eq (h : AtEnd ts) : skip ts = ts := by
  rcases h with rfl | ⟨span, rfl⟩
  · rfl
  · rfl

theorem Queue.left_skip (h : Queue text ts) : Left text ts (skip ts) :=
  h.left_dropWhile Token.isSeparator rfl

theorem Queue.left_recover (h : Queue text ts) : Left text ts (recover ts) :=
  h.left_dropWhile (fun t ↦ !t.isSeparator && t != .eof) rfl

theorem recover_cons {t : Located} (hsep : t.token.isSeparator = false) (hne : t.token ≠ .eof) :
    recover (t :: ts) = recover ts :=
  List.dropWhile_cons_of_pos (by simp [hsep, hne])

theorem Queue.exists_cons_of_skip (h : Queue text ts) (hend : ¬AtEnd (skip ts)) :
    ∃ t more, skip ts = t :: more ∧ t.token.isSeparator = false ∧ t.token ≠ .eof := by
  have hqueue := h.left_skip.queue
  have hhead := List.head?_dropWhile_not (·.token.isSeparator) ts
  rw [← skip] at hhead
  cases hskip : skip ts with
  | nil => exact absurd hskip hqueue.ne_nil
  | cons t more =>
    rw [hskip] at hqueue hhead hend
    refine ⟨t, more, rfl, hhead, fun heof ↦ hend ?_⟩
    rcases hqueue with _ | ⟨hne, -⟩
    · exact .inr ⟨t.span, by rw [← heof]⟩
    · exact absurd heof hne

/-- An error at the next token is in front of the item behind the next separator. -/
theorem Queue.position_lt_recover (h : Queue text ts) :
    AtEnd (skip (recover ts)) ∨ position ts < position (skip (recover ts)) := by
  cases h with
  | @last t heof =>
    obtain ⟨token, span⟩ := t
    subst heof
    exact .inl (.inr ⟨span, rfl⟩)
  | @cons t more hne marks nonempty le queue =>
    have hpos : position (t :: more) < position more := Nat.lt_of_lt_of_le nonempty le
    refine .inr (Nat.lt_of_lt_of_le hpos ?_)
    cases hsep : t.token.isSeparator with
    | true =>
      -- Recovery stops at once, and it is the next round that skips the separator.
      have hrecover : recover (t :: more) = t :: more :=
        List.dropWhile_cons_of_neg (by simp [hsep])
      have hskip : skip (t :: more) = skip more := List.dropWhile_cons_of_pos hsep
      rw [hrecover, hskip]
      exact queue.left_skip.le
    | false =>
      rw [recover_cons hsep hne]
      exact (queue.left_recover.trans queue.left_recover.queue.left_skip).le

/-- Whatever an item that failed has left, recovering from it takes at least the first token. -/
theorem Left.length_recover_lt (h : Left text (skip ts) rest) (hts : Queue text ts)
    (hend : ¬AtEnd (skip ts)) : (recover rest).length < ts.length := by
  obtain ⟨t, more, hskip, hsep, hne⟩ := hts.exists_cons_of_skip hend
  have hle := hts.left_skip.length_le
  have hrecover := h.queue.left_recover.length_le
  rcases Nat.lt_or_eq_of_le h.length_le with hlt | heq
  · omega
  · rw [h.suffix.eq_of_length heq, hskip, recover_cons hsep hne]
    have hmore : (recover more).length ≤ more.length := (List.dropWhile_sublist _).length_le
    rw [hskip, List.length_cons] at hle
    omega

/-! ### The invariant -/

/-- Between two rounds, the script and its errors stand in front of the tokens that are left. -/
structure Standing (text : List Char) (lo : Nat) (script : Script) (errors : List SyntaxError)
    (ts : List Located) : Prop where
  queue : Queue text ts
  lo_le : lo ≤ position ts
  table : Table text lo (position ts) (Part.script script.turned).groups
  faults : ∀ e ∈ errors, e.fault ≠ .nestedTooDeeply ∧ e.span.Marks text
  ordered : errors.Pairwise fun e e' ↦ e'.span.start < e.span.start
  passed : AtEnd (skip ts) ∨ ∀ e ∈ errors, e.span.start < position (skip ts)

namespace Standing

theorem start (h : Queue text ts) (span : Span) : Standing text (position ts) { span } [] ts where
  queue := h
  lo_le := Nat.le_refl _
  table := ⟨by simp [Script.turned, Part.groups], by simp [Script.turned, Part.groups],
    by simp [Script.turned, Part.groups], by simp [Script.turned, Part.groups]⟩
  faults := List.forall_mem_nil _
  ordered := .nil
  passed := .inr (List.forall_mem_nil _)

/-- An item that was read stands behind the others. -/
theorem grow (h : Standing text lo script errors ts)
    (hrest : Grows text script (skip ts) script' rest) :
    Table text lo (position rest) (Part.script script'.turned).groups := by
  obtain ⟨p, hp, before, group, after, hgroups, hgroups'⟩ := hrest
  have htable := h.table
  rw [hgroups] at htable
  rw [hgroups']
  exact htable.concat (hp.row.mono h.queue.left_skip.le (Nat.le_refl _)) h.lo_le

/-- An error stands behind the others, and the tokens behind the next separator stand behind it. -/
theorem fault (h : Standing text lo script errors ts) (hend : ¬AtEnd (skip ts))
    (htable : Table text lo (position rest) (Part.script script'.turned).groups)
    (he : Faults text (skip ts) rest e) : Standing text lo script' (e :: errors) (recover rest) := by
  have hpassed := h.passed.resolve_left hend
  have hrecover := he.queue.left_recover
  have hleft := h.queue.left_skip.trans (he.toLeft.trans hrecover)
  have hlo := Nat.le_trans h.lo_le hleft.le
  refine ⟨hrecover.queue, hlo, htable.mono hrecover.le, ?_, ?_, ?_⟩
  · exact List.forall_mem_cons.mpr ⟨⟨he.fault, he.marks⟩, h.faults⟩
  · refine .cons (fun e' he' ↦ ?_) h.ordered
    exact Nat.lt_of_lt_of_le (hpassed e' he') he.start_le
  · refine he.queue.position_lt_recover.imp_right fun hlt ↦ List.forall_mem_cons.mpr ⟨?_, ?_⟩
    · exact Nat.lt_of_le_of_lt he.le_position hlt
    · intro e' he'
      exact Nat.lt_of_lt_of_le (hpassed e' he') (Nat.le_trans he.le hlt.le)

/-- A round takes at least one token, adds one error at most, and keeps the invariant. -/
theorem round (h : Standing text lo script errors ts) (hn : 8 * ts.length + 5 ≤ n)
    (hend : ¬AtEnd (skip ts)) (hround : Round n script errors (skip ts) script' errors' ts') :
    Standing text lo script' errors' ts' ∧ ts' <:+ ts ∧ ts'.length < ts.length := by
  have hskip := h.queue.left_skip
  have hlength := hskip.length_le
  have hitem : Lays text (skip ts) (item script n) (skip ts) (Grows text script (skip ts)) :=
    lays_item (by omega)
  have hrun := hitem hskip.queue.left
  rcases hround with hitem | ⟨hitem, hmid⟩ | ⟨hitem, hmid⟩
  · -- The item failed, and the script is as it was.
    rw [hitem] at hrun
    have htable := h.table.mono (Nat.le_trans hskip.le hrun.le)
    have hrecover := hskip.trans (hrun.toLeft.trans hrun.queue.left_recover)
    exact ⟨h.fault hend htable hrun, hrecover.suffix, hrun.toLeft.length_recover_lt h.queue hend⟩
  · -- The item was read, but no separator is behind it: the script keeps it in spite of the error.
    rw [hitem] at hrun
    obtain ⟨hleft, hgrows⟩ := hrun
    have hrun' := Lays.statementEnd false hleft.queue.left
    rw [hmid] at hrun'
    have htable := (h.grow hgrows).mono hrun'.le
    have hfaults := hrun'.since hleft
    have hrecover := hskip.trans (hfaults.toLeft.trans hfaults.queue.left_recover)
    refine ⟨h.fault hend htable hfaults, hrecover.suffix, ?_⟩
    exact hfaults.toLeft.length_recover_lt h.queue hend
  · -- The item was read. It has a token at least, so that nothing needs to be skipped behind it.
    rw [hitem] at hrun
    obtain ⟨hleft, hgrows⟩ := hrun
    have hrun' := Lays.statementEnd false hleft.queue.left
    rw [hmid] at hrun'
    obtain ⟨-, rfl⟩ := hrun'
    have hpassed := h.passed.resolve_left hend
    have hfar := hskip.trans hleft
    refine ⟨⟨hleft.queue, Nat.le_trans h.lo_le hfar.le, h.grow hgrows, h.faults, h.ordered, ?_⟩,
      hfar.suffix, ?_⟩
    · refine .inr fun e he ↦ Nat.lt_of_lt_of_le (hpassed e he) ?_
      exact Nat.le_trans hleft.le hleft.queue.left_skip.le
    · obtain ⟨p, hp, -⟩ := hgrows
      exact Nat.lt_of_lt_of_le hp.spans.shorter hlength

theorem skip_of_atEnd (h : Standing text lo script errors ts) (hend : AtEnd (skip ts)) :
    Standing text lo script errors (skip ts) := by
  have hskip := h.queue.left_skip
  refine ⟨hskip.queue, Nat.le_trans h.lo_le hskip.le, h.table.mono hskip.le, h.faults, h.ordered, ?_⟩
  rw [hend.skip_eq]
  exact .inl hend

/-- Reading keeps the invariant, and comes to the end if there may be as many rounds as tokens. -/
theorem items (h : Standing text lo script errors ts) (hn : 8 * ts.length + 5 ≤ n) (rounds : Nat) :
    ∃ script' errors' rest, Grammar.items n rounds script errors ts = (script', errors', rest) ∧
      Standing text lo script' errors' rest ∧ rest <:+ ts ∧ (ts.length < rounds → AtEnd rest) := by
  induction rounds generalizing script errors ts with
  | zero => exact ⟨script, errors, ts, rfl, h, List.suffix_rfl, fun hlt ↦ absurd hlt (by omega)⟩
  | succ rounds ih =>
    by_cases hend : AtEnd (skip ts)
    · exact ⟨_, _, _, items_of_atEnd hend, h.skip_of_atEnd hend, h.queue.left_skip.suffix,
        fun _ ↦ hend⟩
    · obtain ⟨script₁, errors₁, ts₁, hround, hitems⟩ := exists_round n script errors hend
      obtain ⟨hstanding, hsuffix, hlt⟩ := h.round hn hend hround
      obtain ⟨script', errors', rest, hrest, hstanding', hsuffix', hstop⟩ :=
        ih hstanding (by omega)
      refine ⟨script', errors', rest, (hitems rounds).trans hrest, hstanding', ?_, ?_⟩
      · exact hsuffix'.trans hsuffix
      · exact fun hrounds ↦ hstop (by omega)

end Standing

/-- The state of reading the tokens after so many rounds: the script, the errors last first, and
the tokens still to be read. -/
def afterRounds (ts : List Located) (rounds : Nat) : Script × List SyntaxError × List Located :=
  Grammar.items (8 * (ts.length + 2)) rounds { span := (ts.headD ⟨.eof, .none⟩).span } [] ts

theorem exists_standing (h : Queue text ts) (rounds : Nat) : ∃ script errors rest,
    afterRounds ts rounds = (script, errors, rest) ∧
      Standing text (position ts) script errors rest ∧ rest <:+ ts ∧
      (ts.length < rounds → AtEnd rest) :=
  (Standing.start h _).items (by omega) rounds

theorem parseTokens_eq (ts : List Located) : parseTokens ts =
    let (script, errors, rest) := afterRounds ts (ts.length + 1)
    if errors.isEmpty then
      .ok { script.turned with
        span := (ts.headD ⟨.eof, .none⟩).span.merge (rest.headD ⟨.eof, .none⟩).span }
    else .error errors.reverse := rfl

/-- The span of the next token ends before that of a later one, or where it does. -/
theorem Left.stop_le_stop {t u : Located} (h : Left text (t :: ts) (u :: rest))
    (hts : Queue text (t :: ts)) : t.span.stop ≤ u.span.stop := by
  rcases List.suffix_cons_iff.mp h.suffix with heq | hsuffix
  · rw [(List.cons.inj heq).1]
  · rcases hts with _ | ⟨hne, marks, nonempty, le, more⟩
    · cases List.suffix_nil.mp hsuffix
    · have hle := (more.left_of_suffix hsuffix (List.cons_ne_nil _ _)).le
      exact Nat.le_trans le (Nat.le_trans hle h.queue.marks_head.start_le_stop)

/-- A script that the tokens of a text spell is laid out in it. -/
theorem laid_of_parseTokens (h : Queue text ts) (hparse : parseTokens ts = .ok script) :
    Laid text (.script script) := by
  obtain ⟨last, errors, rest, hrounds, hstanding, hsuffix, -⟩ := exists_standing h (ts.length + 1)
  rw [parseTokens_eq, hrounds] at hparse
  dsimp only at hparse
  split at hparse
  · cases hparse
    have hleft := h.left_of_suffix hsuffix hstanding.queue.ne_nil
    have hrest := hstanding.queue
    have htable := hstanding.table
    cases ts with
    | nil => exact absurd rfl h.ne_nil
    | cons t ts =>
      cases rest with
      | nil => exact absurd rfl hrest.ne_nil
      | cons u rest =>
        have hstop := hleft.stop_le_stop h
        have hmerge := Span.merge_of_le (s := t.span) (t := u.span) hleft.le hstop
        have htable := htable.mono hrest.marks_head.start_le_stop
        refine .node (h.marks_head.merge hrest.marks_head hleft.le hstop) ?_ htable.apart
          htable.ordered htable.laid
        rw [Part.span, List.headD_cons, List.headD_cons, hmerge]
        exact htable.inside
  · cases hparse

end

end Grammar

/-! ## The nodes of a parsed script -/

/-- The span of the node is that of a stretch of the text. Its children are stretches of the same,
none of them empty: any two are apart, and those of one list follow each other. -/
structure Part.Spanned (text : String) (p : Part) : Prop where
  marks : p.span.Marks text.toList
  /-- The line and the column are those of the start, unless the text is longer than can be told by
  them. -/
  exact : text.length + 1 < 2 ^ 32 → p.span.Exact text.toList
  start_le_stop : p.span.start ≤ p.span.stop
  stop_le : p.span.stop ≤ text.utf8ByteSize
  inside : ∀ c ∈ p.children,
    p.span.start ≤ c.span.start ∧ c.span.start < c.span.stop ∧ c.span.stop ≤ p.span.stop
  apart : p.children.Pairwise Part.Apart
  ordered : ∀ group ∈ p.groups, group.Pairwise Part.Before

theorem Laid.spanned {text : String} {p : Part} (h : Laid text.toList p) : p.Spanned text := by
  obtain ⟨marks, inside, apart, ordered, -⟩ := h
  have hstop := marks.stop_le
  rw [byteLength, String.ofList_toList] at hstop
  refine ⟨marks, fun hshort ↦ marks.exact ?_, marks.start_le_stop, hstop, inside, apart, ordered⟩
  rwa [String.length_toList]

/-- Every node of a parsed script has a span of the text, and its children stand in it one after
another. -/
theorem spanned_of_parse {text : String} {script : Script} (h : parse text = .ok script) {p : Part}
    (hp : (Part.script script).Has p) : p.Spanned text := by
  rw [parse] at h
  split at h
  next tokens htokens =>
    have hqueue := Grammar.Queue.of_tiles (tiles_of_tokenize htokens) rfl
    exact ((Grammar.laid_of_parseTokens hqueue h).of_has hp).spanned
  next => cases h

/-- The second argument of a call without parentheses. Its span begins behind the parenthesis that
it begins with. -/
theorem spanned_of_parse_command : ∃ script argument, parse "p x, (a) + b" = .ok script ∧
    (Part.script script).Has argument ∧ argument.span = ⟨6, 12, 1, 7⟩ ∧
    argument.Spanned "p x, (a) + b" := by
  have hspans : ((parse "p x, (a) + b").toOption.map fun script ↦
      (((Part.script script).children.flatMap (·.children)).flatMap (·.children)).map (·.span)) =
        some [⟨2, 3, 1, 3⟩, ⟨6, 12, 1, 7⟩] := by decide +kernel
  cases hparse : parse "p x, (a) + b" with
  | error errors =>
    rw [hparse] at hspans
    cases hspans
  | ok script =>
    rw [hparse] at hspans
    have hlast : (⟨6, 12, 1, 7⟩ : Span) ∈ [(⟨2, 3, 1, 3⟩ : Span), ⟨6, 12, 1, 7⟩] := by decide
    rw [← Option.some.inj hspans] at hlast
    obtain ⟨argument, hargument, hspan⟩ := List.mem_map.mp hlast
    obtain ⟨call, hcall, hargument⟩ := List.mem_flatMap.mp hargument
    obtain ⟨stmt, hstmt, hcall⟩ := List.mem_flatMap.mp hcall
    have hhas : (Part.script script).Has argument :=
      .under hstmt (.under hcall (.under hargument .root))
    exact ⟨script, argument, rfl, hhas, hspan, spanned_of_parse hparse hhas⟩

end BuildScript
