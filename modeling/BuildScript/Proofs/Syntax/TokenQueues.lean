import BuildScript.Proofs.Syntax.LaidTrees
import BuildScript.Syntax.Grammar

/-!
# Reading from the tokens of a text

The tokens still to be read are a queue: their spans are stretches of the text in order, and the
end of the text is the last of them. Reading takes tokens from the front, so what a reader took lies
between two positions of the text, and so does a node made of it.

## Design

`Grammar.Lays` is a judgement about a reader at given tokens, told relative to tokens that it or its
callers began at. On success it leaves a suffix of these, and its result is as told; on failure it
leaves one as well, and the error points to what was read or to the next token, and is not that the
bound was too low. It has one rule for each thing that a reader does first, with the rest of the
reader as a premise, so that a proof reads like the reader it is about: what was taken by each step
is known by a `Spans` between the tokens before and after.
-/

namespace BuildScript

namespace Grammar

/-! ## Queues -/

/-- The position of the text at which tokens begin. -/
def position (ts : List Located) : Nat := (ts.headD ⟨.eof, .none⟩).span.start

/-- The tokens of a text from some position on. -/
inductive Queue (text : List Char) : List Located → Prop
  | last {t : Located} (heof : t.token = .eof) (marks : t.span.Marks text) : Queue text [t]
  | cons {t : Located} {ts : List Located} (hne : t.token ≠ .eof) (marks : t.span.Marks text)
    (nonempty : t.span.start < t.span.stop) (le : t.span.stop ≤ position ts)
    (more : Queue text ts) : Queue text (t :: ts)

/-- The tokens that a text is covered with are a queue. -/
theorem Queue.of_tiles {front rest text : List Char} {ts : List Located} (h : Tiles front rest ts)
    (htext : text = front ++ rest) : Queue text ts := by
  induction h with
  | @eof front gap =>
    refine .last rfl ⟨front ++ gap, [], [], ?_, rfl⟩
    rwa [List.append_nil, List.append_nil]
  | @token front gap slice rest t tokens _ hspells _ more ih =>
    have hpos := byteLength_pos hspells.ne_nil
    refine .cons (by rintro rfl; cases hspells) ⟨front ++ gap, slice, rest, ?_, rfl⟩ ?_ ?_ (ih ?_)
    · rwa [List.append_assoc]
    · rw [Span.ofStretch, byteLength_append (front ++ gap) slice]
      exact Nat.lt_add_of_pos_right hpos
    · cases tokens with
      | nil => cases more
      | cons u tokens => exact more.le_start u List.mem_cons_self
    · rwa [List.append_assoc, List.append_assoc]

/-- Reading from the first tokens has left the others. -/
structure Left (text : List Char) (ts rest : List Located) : Prop where
  queue : Queue text rest
  suffix : rest <:+ ts
  le : position ts ≤ position rest

/-- What was read of the first tokens, when the others were left, has a part with the span. -/
structure Spans (text : List Char) (ts rest : List Located) (s : Span) : Prop
    extends Left text ts rest where
  shorter : rest.length < ts.length
  marks : s.Marks text
  start_le : position ts ≤ s.start
  nonempty : s.start < s.stop
  stop_le : s.stop ≤ position rest

/-- The error is about what was read of the first tokens, when the others were left, or about the
next one of these; it is not that the bound was too low. -/
structure Faults (text : List Char) (ts rest : List Located) (e : SyntaxError) : Prop
    extends Left text ts rest where
  fault : e.fault ≠ .nestedTooDeeply
  marks : e.span.Marks text
  start_le : position ts ≤ e.span.start
  le_position : e.span.start ≤ position rest

section

variable {text : List Char} {ts ts' mid mid' rest rest' : List Located} {t : Located} {s u : Span}

namespace Queue

theorem ne_nil (h : Queue text ts) : ts ≠ [] := by
  rcases h with _ | _ <;> exact List.cons_ne_nil _ _

theorem left (h : Queue text ts) : Left text ts ts := ⟨h, List.suffix_rfl, Nat.le_refl _⟩

/-- The tokens behind one that is not the end of the text. -/
theorem spans_tail (h : Queue text (t :: ts)) (ht : t.token ≠ .eof) :
    Spans text (t :: ts) ts t.span := by
  rcases h with ⟨heof, -⟩ | ⟨-, marks, nonempty, le, more⟩
  · exact absurd heof ht
  · exact
      { queue := more
        suffix := List.suffix_cons t ts
        le := Nat.le_trans nonempty.le le
        shorter := Nat.lt_succ_self _
        marks, nonempty
        start_le := Nat.le_refl _
        stop_le := le }

theorem marks_head (h : Queue text (t :: ts)) : t.span.Marks text := by
  rcases h with ⟨-, marks⟩ | ⟨-, marks, -⟩ <;> exact marks

end Queue

namespace Left

theorem trans (h : Left text ts mid) (h' : Left text mid rest) : Left text ts rest :=
  ⟨h'.queue, h'.suffix.trans h.suffix, Nat.le_trans h.le h'.le⟩

theorem length_le (h : Left text ts rest) : rest.length ≤ ts.length := h.suffix.length_le

end Left

theorem Queue.left_of_suffix (h : Queue text ts) (hsuffix : rest <:+ ts) (hne : rest ≠ []) :
    Left text ts rest := by
  induction h with
  | last heof marks =>
    rcases List.suffix_cons_iff.mp hsuffix with rfl | hnil
    · exact (Queue.last heof marks).left
    · exact absurd (List.suffix_nil.mp hnil) hne
  | cons hne' marks nonempty le more ih =>
    -- What is left is the whole queue, or it is left of the tokens behind the first.
    have hqueue := Queue.cons hne' marks nonempty le more
    rcases List.suffix_cons_iff.mp hsuffix with rfl | hmore
    · exact hqueue.left
    · exact (hqueue.spans_tail hne').toLeft.trans (ih hmore)

/-- Skipping tokens that are not the end of the text. -/
theorem Queue.left_dropWhile (h : Queue text ts) (p : Token → Bool) (hp : p .eof = false) :
    Left text ts (ts.dropWhile (p ·.token)) := by
  induction h with
  | @last t heof marks =>
    rw [List.dropWhile_cons_of_neg (by rw [heof, hp]; exact Bool.false_ne_true)]
    exact (Queue.last heof marks).left
  | @cons t ts hne marks nonempty le more ih =>
    have hqueue : Queue text (t :: ts) := .cons hne marks nonempty le more
    rw [List.dropWhile_cons]
    split
    next => exact (hqueue.spans_tail hne).toLeft.trans ih
    next => exact hqueue.left

namespace Spans

/-- The part belongs to whatever was read before and after as well. -/
theorem widen (h : Spans text mid mid' s) (hts : Left text ts mid) (hrest : Left text mid' rest) :
    Spans text ts rest s where
  toLeft := hts.trans (h.toLeft.trans hrest)
  shorter := by
    have hbefore := hts.length_le
    have hbetween := h.shorter
    have hbehind := hrest.length_le
    omega
  marks := h.marks
  start_le := Nat.le_trans hts.le h.start_le
  nonempty := h.nonempty
  stop_le := Nat.le_trans h.stop_le hrest.le

theorem start_le_position (h : Spans text ts rest s) : s.start ≤ position rest :=
  Nat.le_trans h.nonempty.le h.stop_le

/-- Of two parts, the second is behind the first. -/
theorem stop_le_start (h : Spans text ts mid s) (hmid : Left text mid mid')
    (h' : Spans text mid' rest u) : s.stop ≤ u.start :=
  Nat.le_trans h.stop_le (Nat.le_trans hmid.le h'.start_le)

theorem merge_eq (h : Spans text ts mid s) (hmid : Left text mid mid')
    (h' : Spans text mid' rest u) : s.merge u = { s with stop := u.stop } := by
  have hle := h.stop_le_start hmid h'
  have hs := h.nonempty
  have hu := h'.nonempty
  exact Span.merge_of_le (by omega) (by omega)

theorem merge (h : Spans text ts mid s) (hmid : Left text mid mid')
    (h' : Spans text mid' rest u) : Spans text ts rest (s.merge u) := by
  have hle := h.stop_le_start hmid h'
  have hs := h.nonempty
  have hu := h'.nonempty
  have hmarks := h.marks.merge h'.marks (by omega) (by omega)
  rw [h.merge_eq hmid h'] at hmarks ⊢
  exact
    { toLeft := h.toLeft.trans (hmid.trans h'.toLeft)
      shorter := Nat.lt_of_le_of_lt (hmid.trans h'.toLeft).length_le h.shorter
      marks := hmarks
      start_le := h.start_le
      nonempty := show s.start < u.stop by omega
      stop_le := h'.stop_le }

end Spans

end

/-! ## Nodes of what was read -/

/-- What was read of the first tokens, when the others were left, has a part that is the node. -/
structure Placed (text : List Char) (ts rest : List Located) (p : Part) : Prop where
  spans : Spans text ts rest p.span
  laid : Laid text p

section

variable {text : List Char} {ts mid mid' rest : List Located} {p q : Part} {s u : Span}
  {ps : List Part} {lo hi : Nat}

namespace Placed

theorem widen (h : Placed text mid mid' p) (hts : Left text ts mid) (hrest : Left text mid' rest) :
    Placed text ts rest p := ⟨h.spans.widen hts hrest, h.laid⟩

theorem rowWithin (h : Placed text ts rest p) (hlo : lo ≤ p.span.start) (hhi : p.span.stop ≤ hi) :
    Row text lo hi [p] := .single hlo h.spans.nonempty hhi h.laid

theorem row (h : Placed text ts rest p) : Row text (position ts) (position rest) [p] :=
  h.rowWithin h.spans.start_le h.spans.stop_le

/-- A node without children. -/
theorem leaf (h : Spans text ts rest p.span) (hgroups : p.groups = [[]]) : Placed text ts rest p :=
  ⟨h, Row.laid_of_groups (.nil h.nonempty.le) hgroups h.marks⟩

/-- A node from one part to another, whose children make a row between the ends of these. -/
theorem node (hs : Spans text ts mid s) (hmid : Left text mid mid') (hu : Spans text mid' rest u)
    (hspan : p.span = s.merge u) (hgroups : p.groups = [ps]) (hrow : Row text s.start u.stop ps) :
    Placed text ts rest p := by
  have hspans := hs.merge hmid hu
  refine ⟨hspan ▸ hspans, Row.laid_of_groups ?_ hgroups (hspan ▸ hspans.marks)⟩
  rw [hspan, hs.merge_eq hmid hu]
  exact hrow

/-- A node from some part to its only child. -/
theorem node_single (hs : Spans text ts mid s) (hmid : Left text mid mid')
    (hq : Placed text mid' rest q) (hspan : p.span = s.merge q.span) (hgroups : p.groups = [[q]]) :
    Placed text ts rest p := by
  have hle := Nat.le_trans hs.nonempty.le (hs.stop_le_start hmid hq.spans)
  exact .node hs hmid hq.spans hspan hgroups (hq.rowWithin hle (Nat.le_refl _))

end Placed

end

/-! ## The judgement -/

/-- Reading from `ts`, which reading from `start` has left, gives a result that satisfies `Q` with
the tokens that it leaves, or an error about what was read since `start`. -/
def Lays {α : Type} (text : List Char) (start : List Located) (x : GrammarM α) (ts : List Located)
    (Q : α → List Located → Prop) : Prop :=
  Left text start ts →
    match x ts with
    | .ok a rest => Left text start rest ∧ Q a rest
    | .error e rest => Faults text start rest e

/-- A function of tokens that gives nothing for the end of the text. -/
theorem ne_eof_of_eq_some {β : Type} {f : Token → Option β} {token : Token} {b : β}
    (h : f token = some b) (hf : f .eof = none) : token ≠ .eof := by
  rintro rfl
  rw [hf] at h
  cases h

section

variable {α β : Type} {text : List Char} {start ts rest : List Located} {t : Located}
  {token : Token} {x y : GrammarM α} {Q Q' : α → List Located → Prop}

theorem Faults.since {mid : List Located} {e : SyntaxError} (h : Faults text mid rest e)
    (hmid : Left text start mid) : Faults text start rest e where
  toLeft := hmid.trans h.toLeft
  fault := h.fault
  marks := h.marks
  start_le := Nat.le_trans hmid.le h.start_le
  le_position := h.le_position

namespace Lays

theorem pure {a : α} (h : Left text start ts → Q a ts) :
    Lays text start (Pure.pure a : GrammarM α) ts Q := fun hts ↦ ⟨hts, h hts⟩

/-- That the tokens are left of those at the start may be used. -/
theorem ofLeft (h : Left text start ts → Lays text start x ts Q) : Lays text start x ts Q :=
  fun hts ↦ h hts hts

theorem ite {c : Prop} [Decidable c] (hx : c → Lays text start x ts Q)
    (hy : ¬c → Lays text start y ts Q) : Lays text start (if c then x else y) ts Q := by
  split
  next h => exact hx h
  next h => exact hy h

/-- A reader that is told about on its own, as the last thing to be done. -/
theorem last (h : Lays text ts x ts Q') (hQ : ∀ a rest, Q' a rest → Q a rest) :
    Lays text start x ts Q := by
  intro hts
  have hrun := h hts.queue.left
  revert hrun
  cases x ts with
  | ok a rest => exact fun hrun ↦ ⟨hts.trans hrun.1, hQ a rest hrun.2⟩
  | error e rest => exact fun hrun ↦ hrun.since hts

/-- A reader that is told about on its own, and then others. -/
theorem call {f : α → GrammarM β} {R : β → List Located → Prop} (h : Lays text ts x ts Q')
    (hf : ∀ a rest, Q' a rest → Lays text start (f a) rest R) :
    Lays text start (x >>= f) ts R := by
  intro hts
  have hrun := h hts.queue.left
  rw [show (x >>= f) ts = EStateM.bind x f ts from rfl, EStateM.bind]
  revert hrun
  cases x ts with
  | ok a rest => exact fun hrun ↦ hf a rest hrun.2 (hts.trans hrun.1)
  | error e rest => exact fun hrun ↦ hrun.since hts

theorem fail {fault : SyntaxFault} {span : Span} (hfault : fault ≠ .nestedTooDeeply)
    (hspan : Left text start ts →
      span.Marks text ∧ position start ≤ span.start ∧ span.start ≤ position ts) :
    Lays text start (Grammar.fail fault span : GrammarM α) ts Q := by
  intro hts
  obtain ⟨hmarks, hstart, hle⟩ := hspan hts
  exact ⟨hts, hfault, hmarks, hstart, hle⟩

/-- A failure about something that was read. -/
theorem failAt {fault : SyntaxFault} {span : Span} {mid mid' : List Located}
    (hfault : fault ≠ .nestedTooDeeply) (hmid : Left text start mid)
    (hspan : Spans text mid mid' span) (hts : Left text mid' ts) :
    Lays text start (Grammar.fail fault span : GrammarM α) ts Q :=
  .fail hfault fun _ ↦ ⟨hspan.marks, Nat.le_trans hmid.le hspan.start_le,
    Nat.le_trans hspan.start_le_position hts.le⟩

/-- What is to be done behind a failure does not matter. -/
theorem fail_bind {fault : SyntaxFault} {span : Span} {f : β → GrammarM α}
    (h : Lays text start (Grammar.fail fault span : GrammarM α) ts Q) :
    Lays text start (Grammar.fail fault span >>= f) ts Q := h

/-! ### Single tokens -/

theorem get {f : List Located → GrammarM α} (hf : Lays text start (f ts) ts Q) :
    Lays text start (MonadState.get >>= f) ts Q := hf

theorem set {f : PUnit → GrammarM α} (hrest : Left text ts rest)
    (hf : Lays text start (f ()) rest Q) : Lays text start (MonadStateOf.set rest >>= f) ts Q :=
  fun hts ↦ hf (hts.trans hrest)

theorem current {f : Located → GrammarM α}
    (hf : ∀ t, ts.head? = some t → Lays text start (f t) ts Q) :
    Lays text start (Grammar.current >>= f) ts Q := by
  intro hts
  cases ts with
  | nil => exact absurd rfl hts.queue.ne_nil
  | cons t ts => exact hf t rfl hts

/-- A failure at the next token. -/
theorem failHere {fault : SyntaxFault} (hfault : fault ≠ .nestedTooDeeply)
    (hnext : ts.head? = some t) :
    Lays text start (Grammar.fail fault t.span : GrammarM α) ts Q := by
  obtain ⟨more, rfl⟩ := List.head?_eq_some_iff.mp hnext
  exact .fail hfault fun hts ↦ ⟨hts.queue.marks_head, hts.le, Nat.le_refl _⟩

theorem unexpected {wanted : Wanted} :
    Lays text start (Grammar.unexpected wanted : GrammarM α) ts Q :=
  .current fun _ hnext ↦ .failHere nofun hnext

theorem unexpected_bind {wanted : Wanted} {f : β → GrammarM α} :
    Lays text start (Grammar.unexpected wanted >>= f) ts Q := by
  have hfails : Lays text ts (Grammar.unexpected wanted : GrammarM β) ts fun _ _ ↦ False :=
    .unexpected
  exact .call hfails fun _ _ h ↦ h.elim

theorem advance {f : Unit → GrammarM α} (hnext : ts.head? = some t) (ht : t.token ≠ .eof)
    (hf : ∀ rest, Spans text ts rest t.span → Lays text start (f ()) rest Q) :
    Lays text start (Grammar.advance >>= f) ts Q := by
  obtain ⟨more, rfl⟩ := List.head?_eq_some_iff.mp hnext
  intro hts
  have hspans := hts.queue.spans_tail ht
  exact hf more hspans (hts.trans hspans.toLeft)

theorem nextIs {f : Bool → GrammarM α} (hf : ∀ b, Lays text start (f b) ts Q) :
    Lays text start (Grammar.nextIs token >>= f) ts Q :=
  fun hts ↦ hf _ hts

theorem accept {f : Bool → GrammarM α} (htoken : token ≠ .eof)
    (hyes : ∀ s rest, Spans text ts rest s → Lays text start (f true) rest Q)
    (hno : Lays text start (f false) ts Q) :
    Lays text start (Grammar.accept token >>= f) ts Q := by
  rw [Grammar.accept, Grammar.nextIs, bind_assoc, bind_assoc]
  refine .current fun t hnext ↦ ?_
  rw [pure_bind]
  split
  next heq =>
    rw [bind_assoc]
    exact .advance hnext (by rw [eq_of_beq heq]; exact htoken) fun rest hspans ↦ hyes _ rest hspans
  next => exact hno

theorem expect {f : Span → GrammarM α} (htoken : token ≠ .eof)
    (hf : ∀ s rest, Spans text ts rest s → Lays text start (f s) rest Q) :
    Lays text start (Grammar.expect token >>= f) ts Q := by
  rw [Grammar.expect, bind_assoc]
  refine .current fun t hnext ↦ ?_
  split
  next heq =>
    rw [bind_assoc]
    exact .advance hnext (by rw [eq_of_beq heq]; exact htoken) fun rest hspans ↦ hf _ rest hspans
  next => exact .unexpected_bind

theorem identifier {wanted : Wanted} {f : Named → GrammarM α}
    (hf : ∀ name rest, Spans text ts rest name.span → Lays text start (f name) rest Q) :
    Lays text start (Grammar.identifier wanted >>= f) ts Q := by
  rw [Grammar.identifier, bind_assoc]
  refine .current fun t hnext ↦ ?_
  split
  next name heq =>
    rw [bind_assoc]
    exact .advance hnext (by rw [heq]; nofun) fun rest hspans ↦ hf ⟨name, t.span⟩ rest hspans
  next => exact .unexpected_bind

theorem statementEnd (inBlock : Bool) :
    Lays text start (Grammar.statementEnd inBlock) ts fun _ rest ↦ rest = ts := by
  rw [Grammar.statementEnd]
  refine .current fun t _ ↦ ?_
  split
  next => exact .pure fun _ ↦ rfl
  next => exact .pure fun _ ↦ rfl
  next => exact .pure fun _ ↦ rfl
  next =>
    split
    next => exact .pure fun _ ↦ rfl
    next => exact .unexpected
  next => exact .unexpected

theorem skipNewlines {f : Unit → GrammarM α}
    (hf : ∀ rest, Left text ts rest → Lays text start (f ()) rest Q) :
    Lays text start (Grammar.skipNewlines >>= f) ts Q := by
  intro hts
  have hleft := hts.queue.left_dropWhile (· == .newline) rfl
  exact hf _ hleft (hts.trans hleft)

theorem skipSeparators {f : Unit → GrammarM α}
    (hf : ∀ rest, Left text ts rest → Lays text start (f ()) rest Q) :
    Lays text start (Grammar.skipSeparators >>= f) ts Q := by
  intro hts
  have hleft := hts.queue.left_dropWhile Token.isSeparator rfl
  exact hf _ hleft (hts.trans hleft)

theorem atMethod {f : Bool → GrammarM α} (hf : ∀ b, Lays text start (f b) ts Q) :
    Lays text start (Grammar.atMethod >>= f) ts Q := by
  rw [Grammar.atMethod, bind_assoc]
  refine .get ?_
  split
  next => exact hf true
  next => exact hf false

end Lays

end

end Grammar

end BuildScript
