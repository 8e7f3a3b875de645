import BuildScript.Toml.Table

/-!
# Reading TOML

The grammar of TOML documents, as functions that take something off the front of a text and give
what is left, or fail. Nothing is recovered from: a text is a document or it is not.

## Design

Values nest, and how deep they may is bounded, so `value?` is a recursion on the depth that is left.
Everything else is a loop, which goes over the text once and is given a bound that the length of
the text never lets it reach.
-/

namespace BuildScript.Toml

/-- What is taken off the front of a text, and what is left. -/
abbrev Taken (α : Type) := Option (α × List Char)

/-- Containers can be nested, and keys be dotted, this many times less one. -/
def nestingLimit : Nat := 80

/-! ## Blanks, comments and line ends -/

def isBlank (c : Char) : Bool := c == ' ' || c == '\t'

def skipBlanks (cs : List Char) : List Char := cs.dropWhile isBlank

/-- Tabs and all characters but the ASCII control characters. -/
def isPlain (c : Char) : Bool := c == '\t' || (' ' ≤ c && c != '\x7f')

/-- What follows a line break. A carriage return belongs to the line feed behind it. -/
def newline? : List Char → Option (List Char)
  | '\n' :: cs => some cs
  | '\r' :: '\n' :: cs => some cs
  | _ => none

/-- What follows the end of the line, if nothing but a comment stands before it. -/
def endOfLine? (cs : List Char) : Option (List Char) :=
  let cs :=
    match skipBlanks cs with
    | '#' :: comment => comment.dropWhile isPlain
    | cs => cs
  if cs.isEmpty then some [] else newline? cs

/-- Skips blanks, comments and line breaks, at most `n` lines. -/
def skipLines : Nat → List Char → List Char
  | 0, cs => cs
  | n + 1, cs =>
    match endOfLine? cs with
    | some rest => skipLines n rest
    | none => skipBlanks cs

def skipAllLines (cs : List Char) : List Char := skipLines cs.length cs

/-! ## Digits -/

def hexValue? (c : Char) : Option Nat :=
  if c.isDigit then some (c.toNat - '0'.toNat)
  else if 'a' ≤ c && c ≤ 'f' then some (c.toNat - 'a'.toNat + 10)
  else if 'A' ≤ c && c ≤ 'F' then some (c.toNat - 'A'.toNat + 10)
  else none

/-- The number that digits spell in a base. -/
def numberOf (base : Nat) (ds : List Char) : Nat :=
  ds.foldl (fun n d ↦ base * n + (hexValue? d).getD 0) 0

/-- More digits behind those in `done`, which come last first. An underscore stands between two
digits. -/
def moreDigits? (isDigit : Char → Bool) (done : List Char) : List Char → Taken (List Char)
  | [] => some (done.reverse, [])
  | ['_'] => none
  | c :: d :: cs =>
    if c == '_' then if isDigit d then moreDigits? isDigit (d :: done) cs else none
    else if isDigit c then moreDigits? isDigit (c :: done) (d :: cs)
    else some (done.reverse, c :: d :: cs)
  | [c] => if isDigit c then some ((c :: done).reverse, []) else some (done.reverse, [c])

/-- One or more digits. -/
def digits? (isDigit : Char → Bool) : List Char → Taken (List Char)
  | [] => none
  | c :: cs => if isDigit c then moreDigits? isDigit [c] cs else none

/-- A number of exactly `k` digits. -/
def fixedDigits? (k : Nat) (cs : List Char) : Taken Nat :=
  let front := cs.take k
  if front.length == k && front.all Char.isDigit then some (numberOf 10 front, cs.drop k) else none

/-! ## Strings -/

/-- The character with a code point of `k` hexadecimal digits. -/
def codePoint? (k : Nat) (cs : List Char) : Taken Char :=
  let front := cs.take k
  let n := numberOf 16 front
  if front.length == k && front.all (fun c ↦ (hexValue? c).isSome) then
    if n.isValidChar then some (Char.ofNat n, cs.drop k) else none
  else none

/-- The character that an escape stands for, behind the backslash. -/
def escape? : List Char → Taken Char
  | 'b' :: cs => some ('\x08', cs)
  | 't' :: cs => some ('\t', cs)
  | 'n' :: cs => some ('\n', cs)
  | 'f' :: cs => some ('\x0c', cs)
  | 'r' :: cs => some ('\r', cs)
  | '"' :: cs => some ('"', cs)
  | '\\' :: cs => some ('\\', cs)
  | 'u' :: cs => codePoint? 4 cs
  | 'U' :: cs => codePoint? 8 cs
  | _ => none

/-- The rest of a string of one line in double quotes; `done` holds what was read, last first. -/
def basicRest? : Nat → List Char → List Char → Taken String
  | 0, _, _ => none
  | n + 1, done, cs =>
    match cs with
    | '"' :: cs => some (String.ofList done.reverse, cs)
    | '\\' :: cs =>
      match escape? cs with
      | some (c, cs) => basicRest? n (c :: done) cs
      | none => none
    | c :: cs => if isPlain c then basicRest? n (c :: done) cs else none
    | [] => none

/-- A string of one line in double quotes, behind the opening one. -/
def basic? (cs : List Char) : Taken String := basicRest? (cs.length + 1) [] cs

/-- A string of one line in single quotes, behind the opening one; it has no escapes. -/
def literal? (cs : List Char) : Taken String :=
  let (text, rest) := cs.span fun c ↦ isPlain c && c != '\''
  match rest with
  | '\'' :: rest => some (String.ofList text, rest)
  | _ => none

/-- What follows a backslash at the end of a line and the blanks in front of the next text. -/
def continuation? (cs : List Char) : Option (List Char) :=
  (newline? (skipBlanks cs)).map fun rest ↦ skipBreaks rest.length rest
where
  skipBreaks : Nat → List Char → List Char
    | 0, cs => cs
    | n + 1, cs =>
      match newline? (skipBlanks cs) with
      | some rest => skipBreaks n rest
      | none => skipBlanks cs

/-- The rest of a string of several lines. Three quotes end it; one or two quotes are text, also
right in front of the three. -/
def longRest? (quote : Char) : Nat → List Char → List Char → Taken String
  | 0, _, _ => none
  | n + 1, done, cs =>
    match cs with
    | [] => none
    | c :: rest =>
      if c == quote then
        let run := (cs.takeWhile (· == quote)).length
        if run < 3 then longRest? quote n (List.replicate run quote ++ done) (cs.drop run)
        else
          let extra := min (run - 3) 2
          some (String.ofList (List.replicate extra quote ++ done).reverse, cs.drop (3 + extra))
      else if c == '\\' && quote == '"' then
        match continuation? rest with
        | some rest => longRest? quote n done rest
        | none =>
          match escape? rest with
          | some (c, rest) => longRest? quote n (c :: done) rest
          | none => none
      else
        match newline? cs with
        | some rest => longRest? quote n ('\n' :: done) rest
        | none => if isPlain c then longRest? quote n (c :: done) rest else none

/-- A string of several lines, behind the opening quotes; a line break right there is left out. -/
def long? (quote : Char) (cs : List Char) : Taken String :=
  longRest? quote (cs.length + 1) [] ((newline? cs).getD cs)

/-! ## Keys -/

def isBare (c : Char) : Bool := c.isAlphanum || c == '-' || c == '_'

def simpleKey? : List Char → Taken String
  | '"' :: cs => basic? cs
  | '\'' :: cs => literal? cs
  | cs =>
    match cs.span isBare with
    | ([], _) => none
    | (name, rest) => some (String.ofList name, rest)

/-- A dotted key: the names in front of the last one, and the last one. -/
def key? : Nat → List String → List Char → Taken (List String × String)
  | 0, _, _ => none
  | n + 1, done, cs =>
    match simpleKey? (skipBlanks cs) with
    | none => none
    | some (name, rest) =>
      match skipBlanks rest with
      | '.' :: rest => key? n (name :: done) rest
      | rest => some ((done.reverse, name), rest)

def dottedKey? (cs : List Char) : Taken (List String × String) := key? (nestingLimit - 1) [] cs

/-! ## Numbers and dates -/

def sign : List Char → Bool × List Char
  | '-' :: cs => (true, cs)
  | '+' :: cs => (false, cs)
  | cs => (false, cs)

/-- The exponent of a decimal, if there is one. -/
def exponent? : List Char → Taken Int
  | c :: cs =>
    if c == 'e' || c == 'E' then
      let (negative, cs) := sign cs
      (digits? Char.isDigit cs).map fun (ds, rest) ↦
        (if negative then -(numberOf 10 ds : Int) else numberOf 10 ds, rest)
    else some (0, c :: cs)
  | [] => some (0, [])

/-- A float by its digits. One that is too great has no value. -/
def float? (negative : Bool) (digits : List Char) (exponent : Int) : Option Value :=
  let x := Binary64.ofDecimal (numberOf 10 digits) exponent
  if negative then some (.float x.neg) else if x.isInfinite then none else some (.float x)

/-- An integer of 64 bits. -/
def integer? (n : Int) : Option Value :=
  if Int64.minValue.toInt ≤ n ∧ n ≤ Int64.maxValue.toInt then some (.integer (.ofInt n)) else none

/-- The digits of a decimal number before the point, without leading zeros. -/
def wholePart? : List Char → Taken (List Char)
  | '0' :: cs => some (['0'], cs)
  | cs => digits? Char.isDigit cs

/-- A number written in decimal: with a fraction or an exponent it is a float. -/
def decimal? (cs : List Char) : Option (Value × List Char) := do
  let (negative, cs) := sign cs
  match cs with
  | 'i' :: 'n' :: 'f' :: rest =>
    return (.float (if negative then Binary64.infinity.neg else .infinity), rest)
  | 'n' :: 'a' :: 'n' :: rest => return (.float .nan, rest)
  | _ =>
    let (whole, rest) ← wholePart? cs
    match rest with
    | '.' :: rest =>
      let (fraction, rest) ← digits? Char.isDigit rest
      let (exponent, rest) ← exponent? rest
      return (← float? negative (whole ++ fraction) (exponent - fraction.length), rest)
    | c :: _ =>
      if c == 'e' || c == 'E' then
        let (exponent, rest) ← exponent? rest
        return (← float? negative whole exponent, rest)
      else return (← integer? (if negative then -(numberOf 10 whole : Int) else numberOf 10 whole), rest)
    | [] => return (← integer? (if negative then -(numberOf 10 whole : Int) else numberOf 10 whole), rest)

/-- An integer in a base other than ten, behind its mark. -/
def based? (base : Nat) (cs : List Char) : Option (Value × List Char) := do
  let (ds, rest) ← digits? (fun c ↦ (hexValue? c).any (· < base)) cs
  return (← integer? (numberOf base ds), rest)

/-- A number below `limit` of two digits. -/
def pair? (limit : Nat) (cs : List Char) : Taken Nat :=
  (fixedDigits? 2 cs).filter fun (n, _) ↦ n < limit

def daysIn (year month : Nat) : Nat :=
  if month == 2 then if year % 4 == 0 && (year % 100 != 0 || year % 400 == 0) then 29 else 28
  else if [4, 6, 9, 11].contains month then 30
  else 31

/-- What follows a month and a day of a year. -/
def afterDate? (year : Nat) (cs : List Char) : Option (List Char) := do
  let (month, rest) ← pair? 13 cs
  match rest with
  | '-' :: rest =>
    let (day, rest) ← pair? 32 rest
    if month == 0 || day == 0 || daysIn year month < day then none else some rest
  | _ => none

/-- What follows the minutes and seconds of a time, behind the colon. -/
def afterTime? (cs : List Char) : Option (List Char) := do
  let (_, rest) ← pair? 60 cs
  match rest with
  | ':' :: rest =>
    let (_, rest) ← pair? 61 rest
    match rest with
    | '.' :: d :: more => return if d.isDigit then more.dropWhile Char.isDigit else rest
    | _ => return rest
  | _ => none

/-- What follows an offset from universal time, if there is one. -/
def afterOffset? (cs : List Char) : Option (List Char) :=
  match cs with
  | c :: rest =>
    if c == 'Z' || c == 'z' then some rest
    else if c == '+' || c == '-' then do
      let (_, rest) ← pair? 24 rest
      match rest with
      | ':' :: rest => return (← pair? 60 rest).2
      | _ => none
    else some cs
  | [] => some []

/-- What follows an hour and a colon. -/
def afterHour? (cs : List Char) : Option (List Char) :=
  match pair? 24 cs with
  | some (_, ':' :: rest) => some rest
  | _ => none

/-- What follows a time of day behind a date, if there is one. A letter or one blank stands
between them. -/
def afterTimeOfDay? (cs : List Char) : Option (List Char) :=
  match cs with
  | c :: rest =>
    if c == 'T' || c == 't' || c == ' ' then
      match afterHour? rest with
      | some rest => (afterTime? rest).bind afterOffset?
      | none => some cs
    else some cs
  | [] => some []

/-- A number, or a date or time of day. Four digits and a hyphen begin a date, two digits and a
colon a time. -/
def scalar? (cs : List Char) : Taken Value :=
  let written (rest : List Char) : Value × List Char :=
    (.dateTime (String.ofList (cs.take (cs.length - rest.length))), rest)
  match fixedDigits? 4 cs with
  | some (year, '-' :: rest) => ((afterDate? year rest).bind afterTimeOfDay?).map written
  | _ =>
    match afterHour? cs with
    | some rest => (afterTime? rest).map written
    | none =>
      match cs with
      | '0' :: 'x' :: rest => based? 16 rest
      | '0' :: 'o' :: rest => based? 8 rest
      | '0' :: 'b' :: rest => based? 2 rest
      | _ => decimal? cs

/-! ## Values -/

/-- The elements of an array up to its end, given how one of them is taken; `done` holds those
before, last first. -/
def elements? (element : List Char → Taken Value) : Nat → List Value → List Char → Taken Value
  | 0, _, _ => none
  | n + 1, done, cs =>
    match skipAllLines cs with
    | ']' :: rest => some (.array done.reverse, rest)
    | cs =>
      match element cs with
      | none => none
      | some (v, rest) =>
        match skipAllLines rest with
        | ',' :: rest => elements? element n (v :: done) rest
        | ']' :: rest => some (.array (v :: done).reverse, rest)
        | _ => none

/-- The entries of an inline table up to its end, given how a value is taken. -/
def inlineEntries? (value : List Char → Taken Value) : Nat → Entries → List Char → Taken Value
  | 0, _, _ => none
  | n + 1, es, cs =>
    match dottedKey? cs with
    | some ((parents, name), '=' :: rest) =>
      match value (skipBlanks rest) with
      | none => none
      | some (v, rest) =>
        match es.addDotted? parents name v, skipBlanks rest with
        | some es, ',' :: rest => inlineEntries? value n es rest
        | some es, '}' :: rest => some (.table .inline es, rest)
        | _, _ => none
    | _ => none

/-- A value with at most `depth` containers nested in one another. -/
def value? : Nat → List Char → Taken Value
  | depth, cs =>
    match cs with
    | '"' :: '"' :: '"' :: rest => (long? '"' rest).map fun (s, rest) ↦ (.string s, rest)
    | '"' :: rest => (basic? rest).map fun (s, rest) ↦ (.string s, rest)
    | '\'' :: '\'' :: '\'' :: rest => (long? '\'' rest).map fun (s, rest) ↦ (.string s, rest)
    | '\'' :: rest => (literal? rest).map fun (s, rest) ↦ (.string s, rest)
    | 't' :: 'r' :: 'u' :: 'e' :: rest => some (.boolean true, rest)
    | 'f' :: 'a' :: 'l' :: 's' :: 'e' :: rest => some (.boolean false, rest)
    | '[' :: rest =>
      match depth with
      | 0 => none
      | depth + 1 => elements? (value? depth) (rest.length + 1) [] rest
    | '{' :: rest =>
      match depth with
      | 0 => none
      | depth + 1 =>
        match skipBlanks rest with
        | '}' :: rest => some (.table .inline [], rest)
        | rest => inlineEntries? (value? depth) (rest.length + 1) [] rest
    | _ => scalar? cs

/-! ## Documents -/

/-- The lines of a document, given the entries and the header before them. -/
def lines? : Nat → List String → Entries → List Char → Option Entries
  | 0, _, _, _ => none
  | n + 1, header, root, cs =>
    match skipBlanks cs with
    | [] => some root
    | '[' :: '[' :: rest =>
      match dottedKey? rest with
      | some ((parents, name), ']' :: ']' :: rest) =>
        match root.openNext? parents name, endOfLine? rest with
        | some root, some rest => lines? n (parents ++ [name]) root rest
        | _, _ => none
      | _ => none
    | '[' :: rest =>
      match dottedKey? rest with
      | some ((parents, name), ']' :: rest) =>
        match root.openTable? parents name, endOfLine? rest with
        | some root, some rest => lines? n (parents ++ [name]) root rest
        | _, _ => none
      | _ => none
    | cs =>
      match endOfLine? cs with
      | some rest => lines? n header root rest
      | none =>
        match dottedKey? cs with
        | some ((parents, name), '=' :: rest) =>
          match value? (nestingLimit - 1) (skipBlanks rest) with
          | none => none
          | some (v, rest) =>
            match root.within? (·.addDotted? parents name v) header, endOfLine? rest with
            | some root, some rest => lines? n header root rest
            | _, _ => none
        | _ => none

/-- The document that a text is; a byte order mark in front of it does not count. -/
def read? (text : String) : Option Entries :=
  let cs :=
    match text.toList with
    | '\uFEFF' :: cs => cs
    | cs => cs
  lines? (cs.length + 1) [] [] cs

end BuildScript.Toml
