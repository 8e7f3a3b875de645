import BuildScript.Proofs.Syntax.Tiling

/-!
# Tokens and their spellings

Tokens that are written one behind the other, with a blank between any two, are read back as they
were. A spelling may be the beginning of another token's, as `<` is of `<=` and `if` of `iffy`; but
nothing that begins with a spelling and a blank is a longer lexeme, except inside the quotes of a
string, and there the first bare quote ends it. So the scanner stops at each blank, whatever is
written behind it.

In a string a backslash stands in front of itself, of the quotes around the string, and of the `n`
that is written for a newline. No other character needs one.
-/

namespace BuildScript

open Lexeme

/-! ## Spellings -/

/-- The quotes that a string can stand in. -/
inductive Quote where
  | double | single
deriving DecidableEq, Repr

namespace Quote

def char : Quote → Char
  | double => '"'
  | single => '\''

/-- A character of a string as it is written between the quotes. -/
def escapeChar (q : Quote) (c : Char) : List Char :=
  if c = '\\' ∨ c = q.char then ['\\', c]
  else if c = '\n' then ['\\', 'n']
  else [c]

def escape (q : Quote) (cs : List Char) : List Char := cs.flatMap q.escapeChar

end Quote

namespace Token

/-- What the token is written as, with strings in the given quotes. Floats have no spelling here, and
the end of a text has none at all. -/
def spell (q : Quote) : Token → List Char
  | keyword k => k.spelling.toList
  | symbol s => s.spelling.toList
  | identifier name => name.toList
  | integer value => Nat.toDigits 10 value.toInt.toNat
  | string value => q.char :: (q.escape value.toList ++ [q.char])
  | newline => ['\n']
  | float _ | eof => []

/-- Whether the token can come from a text and is no float: identifiers are words and no keywords,
integers have no sign. -/
def Spellable : Token → Prop
  | identifier name => IsWord name.toList ∧ ∀ k : Keyword, k.spelling ≠ name
  | integer value => 0 ≤ value.toInt
  | float _ | eof => False
  | keyword _ | symbol _ | string _ | newline => True

end Token

/-- The tokens with a blank between any two, each string in quotes of its own. -/
def spellAll (ts : List (Quote × Token)) : List Char :=
  [' '].intercalate (ts.map fun t ↦ t.2.spell t.1)

/-! ## Strings -/

section

variable {q : Quote} {c : Char} {cs : List Char}

theorem Quote.char_eq (q : Quote) : q.char = '"' ∨ q.char = '\'' := by
  rcases q with _ | _
  · exact .inl rfl
  · exact .inr rfl

/-- A backslash makes nothing else of what it protects. -/
theorem Quote.plain_of_protected (h : c = '\\' ∨ c = q.char) :
    c ≠ '\n' ∧ c ∉ ['n', 't', 'r', '0'] := by
  rcases h with rfl | rfl
  · decide
  · rcases q with _ | _
    · decide
    · decide

/-- What is written between quotes stands for the characters that were to be written. -/
theorem Quote.isQuoted_escape (q : Quote) (cs : List Char) : IsQuoted q.char (q.escape cs) cs := by
  induction cs with
  | nil => exact .nil
  | cons c cs ih =>
    rw [Quote.escape, List.flatMap_cons, Quote.escapeChar]
    split_ifs with hprotected hnewline
    · obtain ⟨hline, hletter⟩ := plain_of_protected hprotected
      exact .escape hline (.other hletter) ih
    · rw [hnewline]
      exact .escape (by decide) .newline ih
    · obtain ⟨hbackslash, hquote⟩ := not_or.mp hprotected
      exact .plain hquote hbackslash hnewline ih

theorem Lexeme.unescapeChar_of_isEscape {d : Char} (h : IsEscape c d) : unescapeChar c = d := by
  rcases h with _ | _ | _ | _ | hother
  · rfl
  · rfl
  · rfl
  · rfl
  · simp only [List.mem_cons, List.not_mem_nil, or_false, not_or] at hother
    obtain ⟨hn, ht, hr, h0⟩ := hother
    rw [unescapeChar]
    · exact hn
    · exact ht
    · exact hr
    · exact h0

theorem Lexeme.unescape_of_isQuoted {q : Char} {body value : List Char} (h : IsQuoted q body value) :
    unescape body = value := by
  induction h with
  | nil => rfl
  | plain _ backslash _ _ ih =>
    rw [unescape, ih]
    · exact fun d ds h ↦ absurd h backslash
    · exact fun h ↦ absurd h backslash
  | escape _ escape _ ih => rw [unescape, unescapeChar_of_isEscape escape, ih]

end

/-! ## Scanning a spelling -/

section

variable {q : Quote} {t : Token} {c : Char} {cs rest digits : List Char}

theorem Lexeme.isBlank_eq_false_of_nameStart (h : isNameStart c = true) : isBlank c = false := by
  refine Bool.eq_false_iff.mpr fun hblank ↦ ?_
  rcases isBlank_iff.mp hblank with rfl | rfl | rfl | rfl
  all_goals cases h

theorem Lexeme.isBlank_eq_false_of_digit (h : c.isDigit = true) : isBlank c = false := by
  refine Bool.eq_false_iff.mpr fun hblank ↦ ?_
  rcases isBlank_iff.mp hblank with rfl | rfl | rfl | rfl
  all_goals cases h

/-- A run of characters of one kind ends at a blank that is not of the kind. -/
theorem span_of_blank {p : Char → Bool} (hp : p ' ' = false) (hcs : ∀ d ∈ cs, p d = true)
    (hrest : ∀ d ∈ rest.head?, d = ' ') :
    (cs ++ rest).takeWhile p = cs ∧ (cs ++ rest).dropWhile p = rest := by
  rw [List.takeWhile_append_of_pos hcs, List.dropWhile_append_of_pos hcs]
  rcases rest with _ | ⟨d, rest⟩
  · exact ⟨List.append_nil cs, rfl⟩
  · obtain rfl : d = ' ' := hrest d rfl
    rw [List.takeWhile_cons_of_neg (by simp [hp]), List.dropWhile_cons_of_neg (by simp [hp])]
    exact ⟨List.append_nil cs, rfl⟩

theorem Lexeme.scan_word (h : IsWord (c :: cs)) (hrest : ∀ d ∈ rest.head?, d = ' ') :
    isBlank c = false ∧
      scan c (cs ++ rest) = ⟨.token (word (String.ofList (c :: cs))), c :: cs, rest⟩ := by
  obtain ⟨start, parts⟩ := h
  have hstart := isNameStart_iff.mpr start
  have hblank := isBlank_eq_false_of_nameStart hstart
  have hnewline : c ≠ '\n' := by
    rintro rfl
    cases hstart
  obtain ⟨htake, hdrop⟩ :=
    span_of_blank (p := isNamePart) rfl (fun d hd ↦ isNamePart_iff.mpr (parts d hd)) hrest
  refine ⟨hblank, ?_⟩
  rw [scan.eq_def, if_neg (Bool.eq_false_iff.mp hblank), if_neg hnewline, if_pos hstart, htake, hdrop]

theorem Lexeme.scan_integer (h : IsDigits (c :: cs)) (hlt : digitsValue (c :: cs) < integerLimit)
    (hrest : ∀ d ∈ rest.head?, d = ' ') :
    isBlank c = false ∧ scan c (cs ++ rest) =
      ⟨.token (.integer (.ofNat (digitsValue (c :: cs)))), c :: cs, rest⟩ := by
  obtain ⟨hdigit, hdigits⟩ := List.forall_mem_cons.mp h.digits
  have hblank := isBlank_eq_false_of_digit hdigit
  have hnewline : c ≠ '\n' := by
    rintro rfl
    cases hdigit
  have hstart : ¬isNameStart c = true := fun hstart ↦ by
    rw [isDigit_eq_false_of_isLetter (isNameStart_iff.mp hstart)] at hdigit
    cases hdigit
  obtain ⟨htake, hdrop⟩ := span_of_blank (p := Char.isDigit) rfl hdigits hrest
  have hpoint (ds : List Char) : rest ≠ '.' :: ds := by
    rintro rfl
    cases hrest '.' rfl
  -- Without a point behind the digits the number is an integer.
  have hform := numberForm c (cs ++ rest)
  rw [htake, hdrop] at hform
  have hinteger : number c (cs ++ rest) = integer (c :: cs) rest := by
    generalize number c (cs ++ rest) = lexeme at hform
    rcases hform with _ | point | point
    · rfl
    · exact absurd point (hpoint _)
    · exact absurd point (hpoint _)
  refine ⟨hblank, ?_⟩
  rw [scan.eq_def, if_neg (Bool.eq_false_iff.mp hblank), if_neg hnewline, if_neg hstart, if_pos hdigit,
    hinteger, integer, if_pos hlt]

theorem Lexeme.scan_string (q : Quote) (value : String) (rest : List Char) :
    scan q.char (q.escape value.toList ++ [q.char] ++ rest) =
      ⟨.token (.string value), q.char :: (q.escape value.toList ++ [q.char]), rest⟩ := by
  have hquoted := q.isQuoted_escape value.toList
  have hscan (cs : List Char) : scan q.char cs = string q.char cs := by
    rcases q with _ | _
    · rfl
    · rfl
  rw [hscan, string, List.append_assoc, List.singleton_append,
    quoted_append_quote q.char_eq hquoted]
  dsimp only
  rw [if_pos rfl, List.dropLast_concat, unescape_of_isQuoted hquoted, String.ofList_toList]

theorem Lexeme.scan_symbol (s : Symbol) (hrest : ∀ d ∈ rest.head?, d = ' ') :
    ∃ c cs, s.spelling.toList = c :: cs ∧ isBlank c = false ∧
      scan c (cs ++ rest) = ⟨.token (.symbol s), s.spelling.toList, rest⟩ := by
  rcases rest with _ | ⟨d, rest⟩
  · cases s
    all_goals exact ⟨_, _, rfl, rfl, rfl⟩
  · obtain rfl : d = ' ' := hrest d rfl
    cases s
    all_goals exact ⟨_, _, rfl, rfl, rfl⟩

theorem Keyword.isWord_spelling (k : Keyword) : IsWord k.spelling.toList := by
  cases k
  all_goals decide

theorem Lexeme.word_spelling (k : Keyword) : word k.spelling = .keyword k := by
  cases k
  all_goals rfl

theorem Lexeme.word_of_free {name : String} (h : ∀ k : Keyword, k.spelling ≠ name) :
    word name = .identifier name := by
  have hnone : Keyword.ofSpelling? name = none :=
    List.find?_eq_none.mpr fun k _ ↦ by simpa using h k
  rw [word, hnone]

/-- The digits of a number spell it. -/
theorem isDigits_toDigits (n : Nat) : IsDigits (Nat.toDigits 10 n) where
  nonempty := Nat.toDigits_ne_nil
  digits _ hc := Nat.isDigit_of_mem_toDigits (by decide) (by decide) hc

theorem digitsValue_toDigits (n : Nat) : digitsValue (Nat.toDigits 10 n) = n :=
  Nat.ofDigitChars_toDigits (by decide) (by decide)

/-- In front of a blank, or at the end of a text, a spelling is scanned as its token. -/
theorem scan_spell (rest : List Char) (q : Quote) (h : t.Spellable)
    (hrest : ∀ d ∈ rest.head?, d = ' ') :
    ∃ c cs, t.spell q = c :: cs ∧ isBlank c = false ∧
      scan c (cs ++ rest) = ⟨.token t, t.spell q, rest⟩ := by
  have hword {name : String} (hname : IsWord name.toList) : ∃ c cs, name.toList = c :: cs ∧
      isBlank c = false ∧ scan c (cs ++ rest) = ⟨.token (word name), name.toList, rest⟩ := by
    generalize hcs : name.toList = chars at hname
    obtain ⟨c, cs, rfl⟩ := List.exists_cons_of_ne_nil (l := chars) (by rintro rfl; cases hname)
    obtain ⟨hblank, hscan⟩ := scan_word hname hrest
    rw [← hcs, String.ofList_toList, hcs] at hscan
    exact ⟨c, cs, rfl, hblank, hscan⟩
  cases t with
  | keyword k =>
    have hscan := hword k.isWord_spelling
    rwa [word_spelling k] at hscan
  | symbol s => exact scan_symbol s hrest
  | identifier name =>
    have hscan := hword h.1
    rwa [word_of_free h.2] at hscan
  | integer value =>
    have hvalue : Int64.ofNat value.toInt.toNat = value := by
      rw [← Int64.ofInt_eq_ofNat, Int.toNat_of_nonneg h, Int64.ofInt_toInt]
    have hlimit : value.toInt.toNat < integerLimit := by
      have hlt := value.toInt_lt
      change value.toInt.toNat < 2 ^ 63
      omega
    have hdigits := isDigits_toDigits value.toInt.toNat
    have hdigitsValue := digitsValue_toDigits value.toInt.toNat
    rw [Token.spell]
    obtain ⟨c, cs, hcs⟩ := List.exists_cons_of_ne_nil hdigits.nonempty
    rw [hcs] at hdigits hdigitsValue ⊢
    obtain ⟨hblank, hscan⟩ := scan_integer hdigits (hdigitsValue.symm ▸ hlimit) hrest
    rw [hdigitsValue, hvalue] at hscan
    exact ⟨c, cs, rfl, hblank, hscan⟩
  | float value => exact h.elim
  | string value =>
    refine ⟨_, _, rfl, ?_, scan_string q value rest⟩
    rcases q with _ | _
    · rfl
    · rfl
  | newline => exact ⟨_, _, rfl, rfl, rfl⟩
  | eof => exact h.elim

end

/-! ## Scanning a text -/

/-- The tokens that are read off a text, one lexeme at a time. -/
inductive Lexes : List Char → List Token → Prop
  | nil : Lexes [] []
  | token {c : Char} {cs slice rest : List Char} {t : Token} {ts : List Token}
    (h : scan c cs = ⟨.token t, slice, rest⟩) (more : Lexes rest ts) : Lexes (c :: cs) (t :: ts)
  | skip {c : Char} {cs slice rest : List Char} {ts : List Token}
    (h : scan c cs = ⟨.skipped, slice, rest⟩) (more : Lexes rest ts) : Lexes (c :: cs) ts

section

variable {text : List Char} {ts : List Token}

/-- The pieces of the text are the tokens, and no piece is an error. -/
theorem Lexes.piecesFrom (h : Lexes text ts) (place : Place) (pieces : Array Piece) :
    ∃ more, (piecesFrom place pieces text).1.toList = pieces.toList ++ more ∧
      more.filterMap Piece.error? = [] ∧
      (more.filterMap Piece.token?).map (·.token) = ts := by
  induction h generalizing place pieces with
  | nil => exact ⟨[], by rw [BuildScript.piecesFrom, List.append_nil], rfl, rfl⟩
  | token h _ ih =>
    rw [piecesFrom_of_scan h]
    obtain ⟨more, hpieces, herrors, htokens⟩ := ih _ (pieces.push _)
    rw [Array.toList_push, List.append_assoc] at hpieces
    exact ⟨_ :: more, hpieces, herrors, congrArg (_ :: ·) htokens⟩
  | skip h _ ih =>
    rw [piecesFrom_of_scan h]
    obtain ⟨more, hpieces, herrors, htokens⟩ := ih _ (pieces.push _)
    rw [Array.toList_push, List.append_assoc] at hpieces
    exact ⟨_ :: more, hpieces, herrors, htokens⟩

theorem Lexes.exists_tokenize (h : Lexes text ts) :
    ∃ located, tokenize text = .ok located ∧ located.map (·.token) = ts ++ [.eof] := by
  obtain ⟨more, hpieces, herrors, htokens⟩ := h.piecesFrom {} #[]
  have hmore : (BuildScript.piecesFrom {} #[] text).1.toList = more := hpieces
  rw [tokenize_eq]
  dsimp only
  rw [hmore, herrors]
  refine ⟨_, rfl, ?_⟩
  rw [List.map_append, htokens]
  rfl

/-- A blank in front of something else is skipped alone. -/
theorem Lexes.blank {c : Char} {cs : List Char} (hc : isBlank c = false)
    (h : Lexes (c :: cs) ts) : Lexes (' ' :: c :: cs) ts := by
  have hscan : scan ' ' (c :: cs) = ⟨.skipped, [' '], c :: cs⟩ := by
    rw [scan.eq_def, if_pos (show isBlank ' ' = true from rfl),
      List.takeWhile_cons_of_neg (by simp [hc]), List.dropWhile_cons_of_neg (by simp [hc])]
  exact .skip hscan h

/-- Tokens with blanks between them are read one by one; what is written begins with no blank. -/
theorem lexes_spellAll {ts : List (Quote × Token)} (h : ∀ t ∈ ts, t.2.Spellable) :
    Lexes (spellAll ts) (ts.map (·.2)) ∧
      ∀ c ∈ (spellAll ts).head?, isBlank c = false := by
  induction ts with
  | nil => exact ⟨.nil, by simp [spellAll]⟩
  | cons t ts ih =>
    obtain ⟨ht, hts⟩ := List.forall_mem_cons.mp h
    obtain ⟨hmore, hhead⟩ := ih hts
    rcases ts with _ | ⟨u, ts⟩
    · obtain ⟨c, cs, hcs, hblank, hscan⟩ := scan_spell [] t.1 ht (by simp)
      rw [List.append_nil] at hscan
      rw [spellAll, List.map_singleton, List.intercalate_singleton, hcs]
      exact ⟨.token hscan .nil, by simpa using hblank⟩
    · obtain ⟨c, cs, hcs, hblank, hscan⟩ :=
        scan_spell (' ' :: spellAll (u :: ts)) t.1 ht (by simp)
      have hsplit : spellAll (t :: u :: ts) = c :: (cs ++ ' ' :: spellAll (u :: ts)) := by
        rw [spellAll, List.map_cons, List.map_cons, List.intercalate_cons_cons, hcs,
          List.append_assoc]
        rfl
      have hne : spellAll (u :: ts) ≠ [] := by
        intro hnil
        rw [hnil] at hmore
        cases hmore
      obtain ⟨d, ds, hds⟩ := List.exists_cons_of_ne_nil hne
      rw [hds] at hmore hhead hscan hsplit
      rw [hsplit]
      exact ⟨.token hscan (hmore.blank (hhead d rfl)), by simpa using hblank⟩

end

/-- Tokens that are written with blanks between them are read back, and then the text ends. -/
theorem tokenize_spellAll {ts : List (Quote × Token)} (h : ∀ t ∈ ts, t.2.Spellable) :
    ∃ located, tokenize (spellAll ts) = .ok located ∧
      located.map (·.token) = ts.map (·.2) ++ [.eof] :=
  (lexes_spellAll h).1.exists_tokenize

/-- What would open a comment without the blank, a keyword and a name that begins as it does, and a
string with both quotes, a backslash and a newline in it. -/
def slashedTokens : List (Quote × Token) :=
  [(.double, .symbol .slash), (.double, .symbol .star), (.double, .keyword .ifWord),
    (.double, .identifier "iffy"), (.single, .string "'\\\n\""), (.double, .integer 0)]

theorem tokenize_spellAll_slashes :
    (∀ t ∈ slashedTokens, t.2.Spellable) ∧
    ∃ located, tokenize "/ * if iffy '\\'\\\\\\n\"' 0".toList = .ok located ∧
      located.map (·.token) = [.symbol .slash, .symbol .star, .keyword .ifWord, .identifier "iffy",
        .string "'\\\n\"", .integer 0, .eof] := by
  have hname : IsWord "iffy".toList := by
    have hparts : ['f', 'f', 'y'].all isNamePart = true := rfl
    exact .word (.inl rfl) fun d hd ↦ isNamePart_iff.mp (List.all_eq_true.mp hparts d hd)
  have hfree (k : Keyword) : k.spelling ≠ "iffy" := by
    cases k
    all_goals decide
  have hspellable : ∀ t ∈ slashedTokens, t.2.Spellable := by
    simp only [slashedTokens, List.forall_mem_cons, List.not_mem_nil, false_imp_iff, implies_true,
      and_true]
    exact ⟨trivial, trivial, trivial, ⟨hname, hfree⟩, trivial, Int.le_refl 0⟩
  have hspelling : spellAll slashedTokens = "/ * if iffy '\\'\\\\\\n\"' 0".toList := by decide
  have htokens := tokenize_spellAll hspellable
  rw [hspelling] at htokens
  exact ⟨hspellable, htokens⟩

end BuildScript
