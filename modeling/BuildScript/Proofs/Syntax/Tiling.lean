import BuildScript.Proofs.Syntax.Lexemes
import Mathlib.Data.List.Chain

/-!
# Tokens and the text they were cut from

The tokens of a text cover it but for blanks and comments. `Tiles` says so by taking the text apart:
what is skipped, the characters of a token, and again, up to the end. `Tiled` says the same by the
spans of the tokens, so that it can be asked of the tokens and the text alone; each of its parts
follows from `Tiles` by one induction.

Spans count bytes, texts are characters. `byteLength` takes one to the other, and a span cuts out
what it was made from because cutting at the end of a stretch of characters gives back the stretch.

A span keeps 32 bits of its line and its column. `Span.Exact` says that these are all of them, which
holds in every text that is shorter than 2 ^ 32 characters, less one.
-/

namespace BuildScript

open Lexeme

/-! ## Places and stretches -/

/-- The bytes that characters take. -/
def byteLength (cs : List Char) : Nat := (String.ofList cs).utf8ByteSize

/-- The characters behind the last newline. -/
def lastLine (cs : List Char) : List Char := (cs.reverse.takeWhile (· != '\n')).reverse

/-- Where the characters stand that have others in front of them. -/
def Span.ofStretch (front slice : List Char) : Span where
  start := byteLength front
  stop := byteLength (front ++ slice)
  line := (1 + front.count '\n').toUInt32
  column := (1 + (lastLine front).length).toUInt32

/-- The line and the column are those of the start, and nothing of them is cut off. -/
def Span.Exact (s : Span) (text : List Char) : Prop :=
  ∃ front, front <+: text ∧ s.start = byteLength front ∧
    s.line.toNat = 1 + front.count '\n' ∧ s.column.toNat = 1 + (lastLine front).length

/-- What lies between two spans of a text. -/
def Span.gap (s u : Span) (text : List Char) : List Char :=
  takeBytes (u.start - s.stop) (dropBytes s.stop text)

section

variable {front slice rest text : List Char}

theorem byteLength_append (front slice : List Char) :
    byteLength (front ++ slice) = byteLength front + byteLength slice := by
  rw [byteLength, String.ofList_append, String.utf8ByteSize_append]
  rfl

theorem byteLength_cons (c : Char) (cs : List Char) :
    byteLength (c :: cs) = c.utf8Size + byteLength cs := by
  rw [byteLength, String.ofList_cons, String.utf8ByteSize_append, String.utf8ByteSize_singleton]
  rfl

theorem byteLength_singleton (c : Char) : byteLength [c] = c.utf8Size := byteLength_cons c []

theorem byteLength_pos (h : slice ≠ []) : 0 < byteLength slice := by
  cases slice with
  | nil => exact absurd rfl h
  | cons c cs =>
    rw [byteLength_cons]
    exact Nat.add_pos_left c.utf8Size_pos _

theorem dropBytes_append (front rest : List Char) :
    Span.dropBytes (byteLength front) (front ++ rest) = rest := by
  induction front with
  | nil =>
    cases rest with
    | nil => rfl
    | cons c cs => exact if_pos rfl
  | cons c cs ih =>
    rw [byteLength_cons, List.cons_append, Span.dropBytes,
      if_neg (Nat.ne_of_gt (Nat.add_pos_left c.utf8Size_pos _)), Nat.add_sub_cancel_left, ih]

theorem takeBytes_append (slice rest : List Char) :
    Span.takeBytes (byteLength slice) (slice ++ rest) = slice := by
  induction slice with
  | nil =>
    cases rest with
    | nil => rfl
    | cons c cs => exact if_pos rfl
  | cons c cs ih =>
    rw [byteLength_cons, List.cons_append, Span.takeBytes,
      if_neg (Nat.ne_of_gt (Nat.add_pos_left c.utf8Size_pos _)), Nat.add_sub_cancel_left, ih]

theorem takeBytes_dropBytes (front slice rest : List Char) :
    Span.takeBytes (byteLength (front ++ slice) - byteLength front)
      (Span.dropBytes (byteLength front) (front ++ (slice ++ rest))) = slice := by
  rw [byteLength_append, Nat.add_sub_cancel_left, dropBytes_append, takeBytes_append]

theorem lastLine_concat_newline (cs : List Char) : lastLine (cs ++ ['\n']) = [] := by
  rw [lastLine, List.reverse_concat, List.takeWhile_cons_of_neg (by decide)]
  rfl

theorem lastLine_concat (cs : List Char) {c : Char} (hc : c ≠ '\n') :
    lastLine (cs ++ [c]) = lastLine cs ++ [c] := by
  rw [lastLine, List.reverse_concat, List.takeWhile_cons_of_pos (by simpa using hc),
    List.reverse_cons]
  rfl

theorem Place.after_append (p : Place) (front slice : List Char) :
    p.after (front ++ slice) = (p.after front).after slice := List.foldl_append

theorem place_after (front : List Char) : Place.after {} front =
    ⟨byteLength front, 1 + front.count '\n', 1 + (lastLine front).length⟩ := by
  induction front using List.reverseRecOn with
  | nil => rfl
  | append_singleton front c ih =>
    rw [Place.after_append, ih, byteLength_append, byteLength_singleton, List.count_append]
    change Place.next _ c = _
    rw [Place.next]
    split
    next hc =>
      subst hc
      rw [lastLine_concat_newline]
      rfl
    next hc =>
      rw [lastLine_concat front hc, List.count_singleton, if_neg (by simpa using hc),
        List.length_append]
      rfl

theorem between_after (front slice : List Char) :
    Span.between (Place.after {} front) (Place.after {} (front ++ slice)) =
      .ofStretch front slice := by
  rw [place_after, place_after]
  rfl

theorem length_lastLine_le (cs : List Char) : (lastLine cs).length ≤ cs.length := by
  have hle := (List.takeWhile_sublist (l := cs.reverse) (· != '\n')).length_le
  rw [List.length_reverse] at hle
  rwa [lastLine, List.length_reverse]

theorem Span.toNat_line_ofStretch (slice : List Char) (h : 1 + front.count '\n' < 2 ^ 32) :
    (ofStretch front slice).line.toNat = 1 + front.count '\n' := UInt32.toNat_ofNat_of_lt' h

theorem Span.toNat_column_ofStretch (slice : List Char) (h : 1 + (lastLine front).length < 2 ^ 32) :
    (ofStretch front slice).column.toNat = 1 + (lastLine front).length :=
  UInt32.toNat_ofNat_of_lt' h

theorem Span.exact_ofStretch (slice : List Char) (h : front <+: text)
    (hshort : text.length + 1 < 2 ^ 32) : (ofStretch front slice).Exact text := by
  have hlength := h.length_le
  have hlines := List.count_le_length (a := '\n') (l := front)
  have hcolumns := length_lastLine_le front
  refine ⟨front, h, rfl, toNat_line_ofStretch slice ?_, toNat_column_ofStretch slice ?_⟩
  · omega
  · omega

end

/-! ## Covering a text -/

/-- Blanks and comments, in front of the rest of a text. -/
inductive Gap : List Char → List Char → Prop
  | nil {rest : List Char} : Gap [] rest
  | append {skip gap rest : List Char} (h : Skips skip (gap ++ rest)) (more : Gap gap rest) :
    Gap (skip ++ gap) rest

/-- The tokens of a text that stands behind another one. -/
inductive Tiles : List Char → List Char → List Located → Prop
  | eof {front gap : List Char} (hgap : Gap gap []) :
    Tiles front gap [⟨.eof, .ofStretch (front ++ gap) []⟩]
  | token {front gap slice rest : List Char} {t : Token} {tokens : List Located}
    (hgap : Gap gap (slice ++ rest)) (hspells : Spells slice t)
    (hlongest : Longest slice (slice ++ rest)) (more : Tiles (front ++ gap ++ slice) rest tokens) :
    Tiles front (gap ++ (slice ++ rest)) (⟨t, .ofStretch (front ++ gap) slice⟩ :: tokens)

section

variable {front slice rest text : List Char} {t : Token} {tokens : List Located}

theorem Tiles.skip (h : Skips slice rest) (htiles : Tiles (front ++ slice) rest tokens) :
    Tiles front (slice ++ rest) tokens := by
  cases htiles with
  | eof hgap =>
    rw [List.append_assoc]
    exact .eof (.append (by rwa [List.append_nil]) hgap)
  | token hgap hspells hlongest more =>
    rw [List.append_assoc front slice] at more ⊢
    rw [← List.append_assoc slice]
    exact .token (.append h hgap) hspells hlongest more

theorem Tiles.spelled (hspells : Spells slice t) (hlongest : Longest slice (slice ++ rest))
    (htiles : Tiles (front ++ slice) rest tokens) :
    Tiles front (slice ++ rest) (⟨t, .ofStretch front slice⟩ :: tokens) := by
  have h : Tiles front ([] ++ (slice ++ rest)) (⟨t, .ofStretch (front ++ []) slice⟩ :: tokens) :=
    .token .nil hspells hlongest (by rwa [List.append_nil])
  rwa [List.append_nil] at h

end

/-! ## The scanner's pieces -/

/-- The token that was read, if one was. -/
def Piece.token? (p : Piece) : Option Located :=
  match p.reading with
  | .token t => some ⟨t, p.span⟩
  | _ => none

/-- The error that was found, if one was. -/
def Piece.error? (p : Piece) : Option LexError :=
  match p.reading with
  | .fault f => some ⟨f, p.span⟩
  | _ => none

theorem tokenize_eq (text : List Char) : tokenize text =
    let (pieces, stop) := piecesFrom {} #[] text
    if (pieces.toList.filterMap Piece.error?).isEmpty then
      .ok (pieces.toList.filterMap Piece.token? ++ [⟨.eof, .between stop stop⟩])
    else .error (pieces.toList.filterMap Piece.error?) := rfl

section

variable {front text : List Char} {pieces : Array Piece}

theorem piecesFrom_of_scan {place : Place} {pieces : Array Piece} {c : Char}
    {cs slice rest : List Char} {reading : Reading} (h : scan c cs = ⟨reading, slice, rest⟩) :
    piecesFrom place pieces (c :: cs) = piecesFrom (place.after slice)
      (pieces.push ⟨reading, .between place (place.after slice)⟩) rest := by
  rw [piecesFrom, h]

/-- Pieces without an error among them give tokens that cover the text. -/
theorem exists_tiles_of_piecesFrom (front text : List Char) (pieces : Array Piece) :
    ∃ more, (piecesFrom (Place.after {} front) pieces text).1.toList = pieces.toList ++ more ∧
      (piecesFrom (Place.after {} front) pieces text).2 = Place.after {} (front ++ text) ∧
      ((∀ p ∈ more, p.error? = none) → Tiles front text
        (more.filterMap Piece.token? ++ [⟨.eof, .ofStretch (front ++ text) []⟩])) := by
  generalize hplace : Place.after {} front = place
  fun_induction piecesFrom place pieces text generalizing front with
  | case1 place pieces =>
    refine ⟨[], (List.append_nil _).symm, ?_, fun _ ↦ ?_⟩
    · rw [List.append_nil, hplace]
    · exact .eof .nil
  | case2 place pieces c cs lexeme stop ih =>
    have htext : lexeme.text ++ lexeme.rest = c :: cs := scan_append c cs
    have hstop : Place.after {} (front ++ lexeme.text) = stop := by
      rw [Place.after_append, hplace]
    obtain ⟨more, hpieces, hlast, htiles⟩ := ih (front ++ lexeme.text) hstop
    rw [List.append_assoc] at hlast htiles
    rw [← htext]
    refine ⟨⟨lexeme.reading, .between place stop⟩ :: more, ?_, hlast, fun hfault ↦ ?_⟩
    · rw [hpieces, Array.toList_push, List.append_assoc]
      rfl
    · obtain ⟨hfirst, hmore⟩ := List.forall_mem_cons.mp hfault
      have htiles := htiles hmore
      rw [← hplace, ← hstop, between_after]
      cases hreading : lexeme.reading with
      | fault f =>
        rw [Piece.error?, hreading] at hfirst
        cases hfirst
      | skipped => exact htiles.skip (skips_scan hreading)
      | token t =>
        obtain ⟨hspells, hlongest⟩ := spells_scan hreading
        exact htiles.spelled hspells (by rwa [htext])

end

/-! ## The tokens of a text -/

/-- A token, and the stretch of text that it stands on. -/
inductive Stands (text : List Char) (u : Located) : Prop
  | on {front slice rest : List Char} (htext : text = front ++ (slice ++ rest))
    (hspan : u.span = .ofStretch front slice)
    (hspells : u.token ≠ .eof → Spells slice u.token ∧ Longest slice (slice ++ rest))

/-- What the spans of tokens tell of them and of the text. -/
structure Tiled (text : List Char) (tokens : List Located) : Prop where
  /-- The text ends once, at its end. -/
  eof : ∃ others last, tokens = others ++ [last] ∧ last.token = .eof ∧
    last.span.start = byteLength text ∧ last.span.stop = byteLength text ∧
    ∀ u ∈ others, u.token ≠ .eof
  nonempty : ∀ u ∈ tokens, u.token ≠ .eof → u.span.start < u.span.stop
  ordered : tokens.Pairwise fun u v ↦ u.span.stop ≤ v.span.start
  /-- Between two tokens, as in front of the first, there are blanks and comments alone. -/
  gaps : (Span.between {} {} :: tokens.map (·.span)).IsChain fun s r ↦
    Gap (s.gap r text) (Span.dropBytes r.start text)
  spells : ∀ u ∈ tokens, u.token ≠ .eof → Spells (u.span.slice text) u.token
  longest : ∀ u ∈ tokens, u.token ≠ .eof →
    Longest (u.span.slice text) (Span.dropBytes u.span.start text)
  /-- Spans begin and end between characters, and tell 32 bits of the line and of the column. -/
  places : ∀ u ∈ tokens, ∃ front slice rest, text = front ++ (slice ++ rest) ∧
    u.span.start = byteLength front ∧ u.span.stop = byteLength (front ++ slice) ∧
    u.span.line = (1 + front.count '\n').toUInt32 ∧
    u.span.column = (1 + (lastLine front).length).toUInt32
  /-- These are the line and the column, unless the text is longer than can be told by them. -/
  exact : text.length + 1 < 2 ^ 32 → ∀ u ∈ tokens, u.span.Exact text

section

variable {front rest text : List Char} {tokens : List Located} {u : Located}

namespace Stands

theorem slice_eq {slice : List Char} (htext : text = front ++ (slice ++ rest))
    (hspan : u.span = .ofStretch front slice) :
    u.span.slice text = slice ∧ Span.dropBytes u.span.start text = slice ++ rest := by
  rw [hspan, htext]
  exact ⟨takeBytes_dropBytes front slice rest, dropBytes_append front (slice ++ rest)⟩

theorem nonempty (h : Stands text u) (heof : u.token ≠ .eof) : u.span.start < u.span.stop := by
  obtain ⟨-, hspan, hspells⟩ := h
  rw [hspan, Span.ofStretch, byteLength_append]
  exact Nat.lt_add_of_pos_right (byteLength_pos (hspells heof).1.ne_nil)

theorem spells (h : Stands text u) (heof : u.token ≠ .eof) :
    Spells (u.span.slice text) u.token := by
  obtain ⟨htext, hspan, hspells⟩ := h
  rw [(slice_eq htext hspan).1]
  exact (hspells heof).1

theorem longest (h : Stands text u) (heof : u.token ≠ .eof) :
    Longest (u.span.slice text) (Span.dropBytes u.span.start text) := by
  obtain ⟨htext, hspan, hspells⟩ := h
  obtain ⟨hslice, hdrop⟩ := slice_eq htext hspan
  rw [hslice, hdrop]
  exact (hspells heof).2

theorem places (h : Stands text u) : ∃ front slice rest, text = front ++ (slice ++ rest) ∧
    u.span.start = byteLength front ∧ u.span.stop = byteLength (front ++ slice) ∧
    u.span.line = (1 + front.count '\n').toUInt32 ∧
    u.span.column = (1 + (lastLine front).length).toUInt32 := by
  obtain ⟨htext, hspan, -⟩ := h
  rw [hspan]
  exact ⟨_, _, _, htext, rfl, rfl, rfl, rfl⟩

theorem exact (h : Stands text u) (hshort : text.length + 1 < 2 ^ 32) : u.span.Exact text := by
  obtain ⟨htext, hspan, -⟩ := h
  rw [hspan]
  exact Span.exact_ofStretch _ ⟨_, htext.symm⟩ hshort

end Stands

namespace Tiles

theorem stands (h : Tiles front rest tokens) (htext : text = front ++ rest) :
    ∀ u ∈ tokens, Stands text u := by
  induction h with
  | @eof front gap =>
    have hsplit : text = front ++ gap ++ ([] ++ []) := by
      rwa [List.append_nil, List.append_nil]
    exact List.forall_mem_singleton.mpr (.on hsplit rfl (absurd rfl))
  | token _ hspells hlongest _ ih =>
    refine List.forall_mem_cons.mpr ⟨.on ?_ rfl fun _ ↦ ⟨hspells, hlongest⟩, ih ?_⟩
    · rwa [List.append_assoc]
    · rwa [List.append_assoc, List.append_assoc]

theorem le_start (h : Tiles front rest tokens) : ∀ u ∈ tokens, byteLength front ≤ u.span.start := by
  induction h with
  | eof =>
    refine List.forall_mem_singleton.mpr ?_
    rw [Span.ofStretch, byteLength_append]
    exact Nat.le_add_right _ _
  | token _ _ _ _ ih =>
    refine List.forall_mem_cons.mpr ⟨?_, fun u hu ↦ Nat.le_trans ?_ (ih u hu)⟩
    · rw [Span.ofStretch, byteLength_append]
      exact Nat.le_add_right _ _
    · rw [List.append_assoc, byteLength_append]
      exact Nat.le_add_right _ _

theorem ordered (h : Tiles front rest tokens) :
    tokens.Pairwise fun u v ↦ u.span.stop ≤ v.span.start := by
  induction h with
  | eof => exact List.pairwise_singleton _ _
  | token _ _ _ more ih => exact List.pairwise_cons.mpr ⟨more.le_start, ih⟩

theorem gaps (h : Tiles front rest tokens) (htext : text = front ++ rest) {s : Span}
    (hs : s.stop = byteLength front) : (s :: tokens.map (·.span)).IsChain fun s r ↦
      Gap (s.gap r text) (Span.dropBytes r.start text) := by
  have hgap {front gap slice rest : List Char} {s : Span} (hs : s.stop = byteLength front)
      (htext : text = front ++ (gap ++ rest)) (h : Gap gap rest) :
      Gap (s.gap (.ofStretch (front ++ gap) slice) text)
        (Span.dropBytes (Span.ofStretch (front ++ gap) slice).start text) := by
    have hdrop : Span.dropBytes (byteLength (front ++ gap)) (front ++ (gap ++ rest)) = rest := by
      rw [← List.append_assoc, dropBytes_append]
    rw [Span.gap, hs, Span.ofStretch, htext, takeBytes_dropBytes, hdrop]
    exact h
  induction h generalizing s with
  | eof h =>
    refine List.isChain_cons_cons.mpr ⟨hgap hs (by rwa [List.append_nil]) h, ?_⟩
    exact List.isChain_singleton _
  | token h _ _ _ ih =>
    refine List.isChain_cons_cons.mpr ⟨hgap hs htext h, ih ?_ rfl⟩
    rwa [List.append_assoc, List.append_assoc]

theorem eof_last (h : Tiles front rest tokens) (htext : text = front ++ rest) :
    ∃ others last, tokens = others ++ [last] ∧ last.token = .eof ∧
      last.span.start = byteLength text ∧ last.span.stop = byteLength text ∧
      ∀ u ∈ others, u.token ≠ .eof := by
  induction h with
  | eof =>
    refine ⟨[], _, rfl, rfl, congrArg byteLength htext.symm, ?_, nofun⟩
    rw [Span.ofStretch, List.append_nil]
    exact congrArg byteLength htext.symm
  | token _ hspells _ _ ih =>
    obtain ⟨others, last, rfl, hlast, hstart, hstop, hothers⟩ :=
      ih (by rwa [List.append_assoc, List.append_assoc])
    refine ⟨_ :: others, last, rfl, hlast, hstart, hstop, List.forall_mem_cons.mpr ⟨?_, hothers⟩⟩
    rintro rfl
    cases hspells

theorem tiled (h : Tiles [] text tokens) : Tiled text tokens where
  eof := h.eof_last rfl
  nonempty u hu := (h.stands rfl u hu).nonempty
  ordered := h.ordered
  gaps := h.gaps rfl rfl
  spells u hu := (h.stands rfl u hu).spells
  longest u hu := (h.stands rfl u hu).longest
  places u hu := (h.stands rfl u hu).places
  exact hshort u hu := (h.stands rfl u hu).exact hshort

end Tiles

end

theorem tiles_of_tokenize {text : List Char} {tokens : List Located}
    (h : tokenize text = .ok tokens) : Tiles [] text tokens := by
  obtain ⟨more, hpieces, hstop, htiles⟩ := exists_tiles_of_piecesFrom [] text #[]
  have hend : Span.between (Place.after {} text) (Place.after {} text) = .ofStretch text [] := by
    have hend := between_after text []
    rwa [List.append_nil] at hend
  change (piecesFrom {} #[] text).1.toList = more at hpieces
  change (piecesFrom {} #[] text).2 = Place.after {} text at hstop
  rw [tokenize_eq] at h
  dsimp only at h
  rw [hpieces, hstop, hend] at h
  split at h
  next hnone =>
    rw [← Except.ok.inj h]
    exact htiles (List.filterMap_eq_nil_iff.mp (List.isEmpty_iff.mp hnone))
  next => cases h

/-- The tokens of a text cover it: what one of them stands on spells it and could not have been
longer, and what lies between them is to be skipped. -/
theorem tokenize_tiled {text : List Char} {tokens : List Located} (h : tokenize text = .ok tokens) :
    Tiled text tokens := (tiles_of_tokenize h).tiled

/-- A comment over two lines with a quote in it, a letter, and a string with the other quote. -/
theorem tokenize_tiled_quotes : ∃ tokens,
    tokenize ['/', '*', '"', '\n', '*', '/', 'a', ' ', '"', '\'', '"'] = .ok tokens ∧
    tokens.map (·.token) = [.identifier "a", .string "'", .eof] ∧
    Tiled ['/', '*', '"', '\n', '*', '/', 'a', ' ', '"', '\'', '"'] tokens := by
  have hcomment : scan '/' ['*', '"', '\n', '*', '/', 'a', ' ', '"', '\'', '"'] =
    ⟨.skipped, ['/', '*', '"', '\n', '*', '/'], ['a', ' ', '"', '\'', '"']⟩ := rfl
  have hletter : scan 'a' [' ', '"', '\'', '"'] =
    ⟨.token (.identifier "a"), ['a'], [' ', '"', '\'', '"']⟩ := rfl
  have hblank : scan ' ' ['"', '\'', '"'] = ⟨.skipped, [' '], ['"', '\'', '"']⟩ := rfl
  have hstring : scan '"' ['\'', '"'] = ⟨.token (.string "'"), ['"', '\'', '"'], []⟩ := rfl
  obtain ⟨tokens, htokens, hmap⟩ : ∃ tokens,
      tokenize ['/', '*', '"', '\n', '*', '/', 'a', ' ', '"', '\'', '"'] = .ok tokens ∧
      tokens.map (·.token) = [.identifier "a", .string "'", .eof] := by
    rw [tokenize_eq, piecesFrom_of_scan hcomment, piecesFrom_of_scan hletter,
      piecesFrom_of_scan hblank, piecesFrom_of_scan hstring, piecesFrom]
    exact ⟨_, rfl, rfl⟩
  exact ⟨tokens, htokens, hmap, tokenize_tiled htokens⟩

end BuildScript
