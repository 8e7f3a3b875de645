import BuildScript.Syntax.Token

/-!
# Lexemes

`scan` recognises the longest lexeme at the head of a text: a token, a stretch to skip (blanks and
comments), or a fault. `tokenize` cuts a whole text into lexemes. A fault never stops the cutting,
so one pass reports every lexical error of a text, in order.

## Design

A lexeme carries the characters it consumed and those it left, and `scan_append` says that the two
make up the input. Positions are computed from the consumed characters alone.
-/

namespace BuildScript

/-- Why a stretch of text is no lexeme. -/
inductive LexFault where
  | unexpectedCharacter (c : Char)
  | unterminatedString
  | unterminatedComment
  /-- An integer that does not fit 64 bits. -/
  | invalidNumber (text : String)
deriving DecidableEq, Repr

def LexFault.message : LexFault → String
  | unexpectedCharacter c => "unexpected character '" ++ c.toString ++ "'"
  | unterminatedString => "unterminated string literal"
  | unterminatedComment => "unterminated comment"
  | invalidNumber text => "invalid number '" ++ text ++ "'"

/-- A lexical fault and the range of text it covers. -/
structure LexError where
  fault : LexFault
  span : Span
deriving DecidableEq, Repr

/-- What a lexeme contributes to the token stream. -/
inductive Reading where
  | skipped
  | token (t : Token)
  | fault (f : LexFault)
deriving DecidableEq, Repr

/-- A lexeme at the head of a text, with the characters behind it. -/
structure Lexeme where
  reading : Reading
  text : List Char
  rest : List Char

namespace Lexeme

/-! ### Character classes -/

def isBlank (c : Char) : Bool := c == ' ' || c == '\t' || c == '\r' || c == '\x0c'

def isNameStart (c : Char) : Bool := c.isAlpha || c == '_' || c == '$'

def isNamePart (c : Char) : Bool := c.isAlpha || c.isDigit || c == '_' || c == '$'

/-! ### Numbers -/

/-- The value of a run of decimal digits. -/
def digitsValue (ds : List Char) : Nat := ds.foldl (fun n d ↦ 10 * n + (d.toNat - '0'.toNat)) 0

/-- An exponent part: its characters, its value, and what follows. -/
def exponentPart? : List Char → Option (List Char × Int × List Char)
  | e :: cs =>
    if e == 'e' || e == 'E' then
      let (sign, ds) := match cs with
        | '+' :: r => (['+'], r)
        | '-' :: r => (['-'], r)
        | r => ([], r)
      let digits := ds.takeWhile Char.isDigit
      if digits.isEmpty then none
      else
        let value : Int := digitsValue digits
        some (e :: sign ++ digits, if sign == ['-'] then -value else value, ds.dropWhile Char.isDigit)
    else none
  | [] => none

/-- Integers stay below this number. -/
def integerLimit : Nat := 1 <<< 63

/-- An integer, or a float if a point with at least one digit follows. A point without a digit, and
an `e` without an exponent, belong to the next lexeme. -/
def number (c : Char) (cs : List Char) : Lexeme :=
  let whole := c :: cs.takeWhile Char.isDigit
  let rest := cs.dropWhile Char.isDigit
  let integer : Lexeme :=
    let value := digitsValue whole
    if value < integerLimit then ⟨.token (.integer (Int64.ofNat value)), whole, rest⟩
    else ⟨.fault (.invalidNumber (String.ofList whole)), whole, rest⟩
  match rest with
  | '.' :: ds =>
    let places := ds.takeWhile Char.isDigit
    let rest := ds.dropWhile Char.isDigit
    if places.isEmpty then integer
    else
      let mantissa := digitsValue (whole ++ places)
      match exponentPart? rest with
      | some (text, e, rest) =>
        ⟨.token (.float (Binary64.ofDecimal mantissa (e - places.length))),
          whole ++ '.' :: places ++ text, rest⟩
      | none =>
        ⟨.token (.float (Binary64.ofDecimal mantissa (-places.length))),
          whole ++ '.' :: places, rest⟩
  | _ => integer

/-! ### Strings -/

/-- The body of a string up to and including the closing quote `q`. Without a closing quote on the
same line, the part that could still belong to the string, and `false`. A backslash protects any
character but a newline. -/
def quoted (q : Char) : List Char → List Char × List Char × Bool
  | [] => ([], [], false)
  | ['\\'] => ([], ['\\'], false)
  | '\\' :: d :: cs =>
    if d = '\n' then ([], '\\' :: d :: cs, false)
    else
      let (body, rest, closed) := quoted q cs
      ('\\' :: d :: body, rest, closed)
  | c :: cs =>
    if c = q then ([c], cs, true)
    else if c = '\n' then ([], c :: cs, false)
    else
      let (body, rest, closed) := quoted q cs
      (c :: body, rest, closed)

/-- The character that a backslash followed by `c` stands for. -/
def unescapeChar (c : Char) : Char :=
  match c with
  | 'n' => '\n'
  | 't' => '\t'
  | 'r' => '\r'
  | '0' => '\x00'
  | c => c

/-- Resolves the escapes of a string body. -/
def unescape : List Char → List Char
  | '\\' :: c :: cs => unescapeChar c :: unescape cs
  | ['\\'] => []
  | c :: cs => c :: unescape cs
  | [] => []

def string (q : Char) (cs : List Char) : Lexeme :=
  let (body, rest, closed) := quoted q cs
  if closed then ⟨.token (.string (String.ofList (unescape body.dropLast))), q :: body, rest⟩
  else ⟨.fault .unterminatedString, q :: body, rest⟩

/-! ### Comments, words and symbols -/

/-- The text up to and including the first end of a block comment, and the text behind it. -/
def closeComment? : List Char → Option (List Char × List Char)
  | '*' :: '/' :: cs => some (['*', '/'], cs)
  | c :: cs => (closeComment? cs).map fun (body, rest) ↦ (c :: body, rest)
  | [] => none

/-- A keyword or an identifier. -/
def word (name : String) : Token :=
  match Keyword.ofSpelling? name with
  | some k => .keyword k
  | none => .identifier name

/-- A symbol of two characters. -/
def doubleSymbol? (c d : Char) : Option Symbol :=
  match c, d with
  | '=', '=' => some .equal
  | '!', '=' => some .notEqual
  | '<', '=' => some .lessEqual
  | '>', '=' => some .greaterEqual
  | '&', '&' => some .andAnd
  | '|', '|' => some .orOr
  | _, _ => none

/-- A symbol of one character. -/
def singleSymbol? (c : Char) : Option Symbol :=
  match c with
  | '=' => some .assign
  | '<' => some .less
  | '>' => some .greater
  | '+' => some .plus
  | '-' => some .minus
  | '*' => some .star
  | '/' => some .slash
  | '%' => some .percent
  | '!' => some .bang
  | '.' => some .dot
  | ',' => some .comma
  | ';' => some .semicolon
  | '(' => some .leftParen
  | ')' => some .rightParen
  | '{' => some .leftBrace
  | '}' => some .rightBrace
  | '[' => some .leftBracket
  | ']' => some .rightBracket
  | _ => none

/-- The longest symbol, or a fault of one character. -/
def symbol (c : Char) (cs : List Char) : Lexeme :=
  match cs.head?.bind (doubleSymbol? c) with
  | some s => ⟨.token (.symbol s), c :: cs.take 1, cs.drop 1⟩
  | none =>
    match singleSymbol? c with
    | some s => ⟨.token (.symbol s), [c], cs⟩
    | none => ⟨.fault (.unexpectedCharacter c), [c], cs⟩

/-- The longest lexeme at the head of `c :: cs`. -/
def scan (c : Char) (cs : List Char) : Lexeme :=
  if isBlank c then ⟨.skipped, c :: cs.takeWhile isBlank, cs.dropWhile isBlank⟩
  else if c = '\n' then ⟨.token .newline, [c], cs⟩
  else if isNameStart c then
    let name := c :: cs.takeWhile isNamePart
    ⟨.token (word (String.ofList name)), name, cs.dropWhile isNamePart⟩
  else if c.isDigit then number c cs
  else if c = '"' || c = '\'' then string c cs
  else
    match c, cs with
    | '/', '/' :: r => ⟨.skipped, c :: '/' :: r.takeWhile (· != '\n'), r.dropWhile (· != '\n')⟩
    | '/', '*' :: r =>
      match closeComment? r with
      | some (body, rest) => ⟨.skipped, c :: '*' :: body, rest⟩
      | none => ⟨.fault .unterminatedComment, c :: '*' :: r, []⟩
    | _, _ => symbol c cs

/-! ### A lexeme and its rest make up the text -/

private theorem exponentPart_append {cs text rest : List Char} {e : Int}
    (h : exponentPart? cs = some (text, e, rest)) : text ++ rest = cs := by
  match cs with
  | [] => simp [exponentPart?] at h
  | e₁ :: r =>
    simp only [exponentPart?] at h
    split at h
    · split at h <;> (
        simp only [Option.ite_none_left_eq_some, Option.some.injEq, Prod.mk.injEq] at h
        obtain ⟨-, rfl, -, rfl⟩ := h
        simp [List.takeWhile_append_dropWhile])
    · simp at h

private theorem number_append (c : Char) (cs : List Char) :
    (number c cs).text ++ (number c cs).rest = c :: cs := by
  have hint : ∀ r : List Char, r = cs.dropWhile Char.isDigit →
      c :: cs.takeWhile Char.isDigit ++ r = c :: cs := by
    rintro r rfl; simp [List.takeWhile_append_dropWhile]
  simp only [number]
  split
  · rename_i ds hd
    have h1 := hint _ hd.symm
    have h2 : ds.takeWhile Char.isDigit ++ ds.dropWhile Char.isDigit = ds :=
      List.takeWhile_append_dropWhile
    split
    · split <;> simpa [hd] using h1
    · split
      · rename_i he
        have h3 := exponentPart_append he
        simp only [List.append_assoc, List.cons_append] at h1 ⊢
        rw [h3, h2]; exact h1
      · simp only [List.append_assoc, List.cons_append] at h1 ⊢
        rw [h2]; exact h1
  · split <;> exact hint _ rfl

private theorem quoted_append (q : Char) (cs : List Char) :
    (quoted q cs).1 ++ (quoted q cs).2.1 = cs := by
  fun_induction quoted q cs <;> simp_all

theorem closeComment_append {cs body rest : List Char}
    (h : closeComment? cs = some (body, rest)) : body ++ rest = cs := by
  fun_induction closeComment? cs generalizing body with
  | case1 cs =>
    simp only [Option.some.injEq, Prod.mk.injEq] at h
    simp [← h.1, ← h.2]
  | case2 c cs _ ih =>
    simp only [Option.map_eq_some_iff] at h
    obtain ⟨⟨b, r⟩, hb, heq⟩ := h
    simp only [Prod.mk.injEq] at heq
    simp [← heq.1, ih (heq.2 ▸ hb)]
  | case3 => simp at h

private theorem symbol_append (c : Char) (cs : List Char) :
    (symbol c cs).text ++ (symbol c cs).rest = c :: cs := by
  simp only [symbol]
  split
  · cases cs <;> simp
  · split <;> simp

/-- Nothing is lost and nothing invented: the lexeme and what it leaves are the text. -/
theorem scan_append (c : Char) (cs : List Char) : (scan c cs).text ++ (scan c cs).rest = c :: cs := by
  simp only [scan]
  split
  · simp [List.takeWhile_append_dropWhile]
  split
  · simp
  split
  · simp [List.takeWhile_append_dropWhile]
  split
  · exact number_append c cs
  split
  · have h := quoted_append c cs
    simp only [string]
    split <;> simpa using h
  split
  · simp [List.takeWhile_append_dropWhile]
  · split
    · rename_i h; simp [closeComment_append h]
    · simp
  · exact symbol_append c cs

/-- A lexeme is never empty. -/
theorem scan_text_ne_nil (c : Char) (cs : List Char) : (scan c cs).text ≠ [] := by
  simp only [scan, number, string, symbol]
  repeat' split
  all_goals simp

theorem length_scan_rest_lt (c : Char) (cs : List Char) : (scan c cs).rest.length < (c :: cs).length := by
  have h := congrArg List.length (scan_append c cs)
  have h1 := List.length_pos_iff.2 (scan_text_ne_nil c cs)
  simp only [List.length_append] at h
  omega

end Lexeme

/-! ## Whole texts -/

/-- A reading and the range of text it covers. -/
structure Piece where
  reading : Reading
  span : Span

/-- Cuts a text into pieces behind those already cut, starting at `place`. The final place is the
end of the text. -/
def piecesFrom (place : Place) (pieces : Array Piece) : List Char → Array Piece × Place
  | [] => (pieces, place)
  | c :: cs =>
    let lexeme := Lexeme.scan c cs
    let stop := place.after lexeme.text
    piecesFrom stop (pieces.push ⟨lexeme.reading, .between place stop⟩) lexeme.rest
termination_by cs => cs.length
decreasing_by exact Lexeme.length_scan_rest_lt c cs

/-- The tokens of a text, closed by `eof`, or all its lexical errors. -/
def tokenize (text : List Char) : Except (List LexError) (List Located) :=
  let (pieces, stop) := piecesFrom {} #[] text
  let errors := pieces.toList.filterMap fun p ↦
    match p.reading with
    | .fault f => some ⟨f, p.span⟩
    | _ => none
  if errors.isEmpty then
    let tokens := pieces.toList.filterMap fun p ↦
      match p.reading with
      | .token t => some ⟨t, p.span⟩
      | _ => none
    .ok (tokens ++ [⟨.eof, .between stop stop⟩])
  else .error errors

end BuildScript
