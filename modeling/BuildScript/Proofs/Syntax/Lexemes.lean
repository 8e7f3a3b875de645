import BuildScript.Syntax.Lexeme
import Mathlib.Data.List.Induction
import Mathlib.Data.Nat.Digits.Defs

/-!
# What is recognised

The lexemes of scripts, told without a scanner: words, numbers, quoted strings and symbols, what
each of them spells, and what is skipped between them. `Lexeme.scan` finds the longest one at the
head of a text. For words that is what `takeWhile` does; for numbers the point and the exponent have
to be weighed too, since neither belongs to the number without a digit behind it; and a string is
never longer than to its first bare quote.

What a lexeme is does not depend on what it means: digits that are too many for an integer are still
one number, and no shorter one is read in their place.
-/

namespace BuildScript

theorem Keyword.mem_all (k : Keyword) : k ∈ Keyword.all := by
  cases k <;> decide

namespace Lexeme

/-! ## Words, numbers, strings and symbols -/

/-- What names begin with. -/
def IsLetter (c : Char) : Prop := c.isAlpha = true ∨ c = '_' ∨ c = '$'

/-- Letters, digits, underscores and dollar signs; the first is no digit. -/
inductive IsWord : List Char → Prop
  | word {c : Char} {cs : List Char} (start : IsLetter c)
    (parts : ∀ d ∈ cs, IsLetter d ∨ d.isDigit = true) : IsWord (c :: cs)

/-- Decimal digits, at least one. -/
structure IsDigits (cs : List Char) : Prop where
  nonempty : cs ≠ []
  digits : ∀ c ∈ cs, c.isDigit = true

/-- The number that decimal digits denote. -/
def decimalValue (digits : List Char) : Nat :=
  Nat.ofDigits 10 (digits.reverse.map fun d ↦ d.toNat - '0'.toNat)

/-- An exponent with its value. -/
inductive IsExponent : List Char → Int → Prop
  | plain {e : Char} {digits : List Char} (letter : e = 'e' ∨ e = 'E') (h : IsDigits digits) :
    IsExponent (e :: digits) (decimalValue digits)
  | plus {e : Char} {digits : List Char} (letter : e = 'e' ∨ e = 'E') (h : IsDigits digits) :
    IsExponent (e :: '+' :: digits) (decimalValue digits)
  | minus {e : Char} {digits : List Char} (letter : e = 'e' ∨ e = 'E') (h : IsDigits digits) :
    IsExponent (e :: '-' :: digits) (-decimalValue digits)

/-- What a character stands for behind a backslash. -/
inductive IsEscape : Char → Char → Prop
  | newline : IsEscape 'n' '\n'
  | tab : IsEscape 't' '\t'
  | carriageReturn : IsEscape 'r' '\r'
  | null : IsEscape '0' '\x00'
  | other {c : Char} (h : c ∉ ['n', 't', 'r', '0']) : IsEscape c c

/-- The body of a string in the given quotes, and what it stands for. -/
inductive IsQuoted (q : Char) : List Char → List Char → Prop
  | nil : IsQuoted q [] []
  | plain {c : Char} {body value : List Char} (quote : c ≠ q) (backslash : c ≠ '\\')
    (newline : c ≠ '\n') (more : IsQuoted q body value) : IsQuoted q (c :: body) (c :: value)
  | escape {c d : Char} {body value : List Char} (newline : c ≠ '\n') (escape : IsEscape c d)
    (more : IsQuoted q body value) : IsQuoted q ('\\' :: c :: body) (d :: value)

/-- Digits, with places behind a point or without, and then with an exponent or without. -/
inductive IsNumber : List Char → Prop
  | integer {digits : List Char} (h : IsDigits digits) : IsNumber digits
  | decimal {whole places : List Char} (hwhole : IsDigits whole) (hplaces : IsDigits places) :
    IsNumber (whole ++ '.' :: places)
  | exponential {whole places exponent : List Char} {e : Int} (hwhole : IsDigits whole)
    (hplaces : IsDigits places) (hexponent : IsExponent exponent e) :
    IsNumber (whole ++ '.' :: (places ++ exponent))

inductive IsString : List Char → Prop
  | string {q : Char} {body value : List Char} (quote : q = '"' ∨ q = '\'')
    (h : IsQuoted q body value) : IsString (q :: (body ++ [q]))

/-- A symbol, or what opens a comment. -/
inductive IsSymbol : List Char → Prop
  | symbol (s : Symbol) : IsSymbol s.spelling.toList
  | comment {c : Char} (h : c = '/' ∨ c = '*') : IsSymbol ['/', c]

/-- What tokens are spelled by, whether they have a value or not. -/
inductive Pattern : List Char → Prop
  | newline : Pattern ['\n']
  | word {cs : List Char} (h : IsWord cs) : Pattern cs
  | number {cs : List Char} (h : IsNumber cs) : Pattern cs
  | string {cs : List Char} (h : IsString cs) : Pattern cs
  | symbol {cs : List Char} (h : IsSymbol cs) : Pattern cs

/-- The token that a lexeme spells. -/
inductive Spells : List Char → Token → Prop
  | newline : Spells ['\n'] .newline
  | keyword (k : Keyword) : Spells k.spelling.toList (.keyword k)
  | identifier {name : String} (word : IsWord name.toList)
    (free : ∀ k : Keyword, k.spelling ≠ name) : Spells name.toList (.identifier name)
  | integer {digits : List Char} {value : Int64} (h : IsDigits digits)
    (denotes : value.toInt = decimalValue digits) : Spells digits (.integer value)
  | decimal {whole places : List Char} (hwhole : IsDigits whole) (hplaces : IsDigits places) :
    Spells (whole ++ '.' :: places)
      (.float (Binary64.ofDecimal (decimalValue (whole ++ places)) (-places.length)))
  | exponential {whole places exponent : List Char} {e : Int} (hwhole : IsDigits whole)
    (hplaces : IsDigits places) (hexponent : IsExponent exponent e) :
    Spells (whole ++ '.' :: (places ++ exponent))
      (.float (Binary64.ofDecimal (decimalValue (whole ++ places)) (e - places.length)))
  | string {q : Char} {body value : List Char} (quote : q = '"' ∨ q = '\'')
    (h : IsQuoted q body value) : Spells (q :: (body ++ [q])) (.string (String.ofList value))
  | symbol (s : Symbol) : Spells s.spelling.toList (.symbol s)

/-- Nothing longer at the head of the text is a lexeme. -/
def Longest (slice text : List Char) : Prop :=
  ∀ longer, Pattern longer → longer <+: text → longer.length ≤ slice.length

/-- What is skipped in front of the rest of a text. -/
inductive Skips : List Char → List Char → Prop
  | blanks {blanks rest : List Char}
    (h : ∀ c ∈ blanks, c = ' ' ∨ c = '\t' ∨ c = '\r' ∨ c = '\x0c') : Skips blanks rest
  | lineComment {body rest : List Char} (h : '\n' ∉ body) (hrest : ∀ c ∈ rest.head?, c = '\n') :
    Skips ('/' :: '/' :: body) rest
  | blockComment {body rest : List Char} (h : ¬['*', '/'] <:+: body ++ ['*']) :
    Skips ('/' :: '*' :: (body ++ ['*', '/'])) rest

/-! ## How they begin -/

section

variable {c : Char} {cs longer : List Char}

theorem isNameStart_iff : isNameStart c = true ↔ IsLetter c := by
  simp only [isNameStart, IsLetter, Bool.or_eq_true, beq_iff_eq, or_assoc]

theorem isNamePart_iff : isNamePart c = true ↔ IsLetter c ∨ c.isDigit = true := by
  simp only [isNamePart, IsLetter, Bool.or_eq_true, beq_iff_eq]
  grind

theorem isBlank_iff : isBlank c = true ↔ c = ' ' ∨ c = '\t' ∨ c = '\r' ∨ c = '\x0c' := by
  simp only [isBlank, Bool.or_eq_true, beq_iff_eq, or_assoc]

theorem isDigit_eq_false_of_isAlpha (h : c.isAlpha = true) : c.isDigit = false := by
  have hlow : 'A'.val ≤ c.val := by
    rcases (Bool.or_eq_true _ _).mp h with hupper | hlower
    · have hrange : 'A'.val ≤ c.val ∧ c.val ≤ 'Z'.val := of_decide_eq_true hupper
      exact hrange.1
    · have hlow : 'a'.val ≤ c.val := of_decide_eq_true ((Bool.and_eq_true _ _).mp hlower).1
      exact UInt32.le_trans (by decide) hlow
  refine Bool.eq_false_iff.mpr fun hdigit ↦ ?_
  have hhigh : c.val ≤ '9'.val := of_decide_eq_true ((Bool.and_eq_true _ _).mp hdigit).2
  exact absurd (UInt32.le_trans hlow hhigh) (by decide)

theorem isWord_cons_iff {cs : List Char} :
    IsWord (c :: cs) ↔ isNameStart c = true ∧ cs.all isNamePart = true := by
  simp only [List.all_eq_true, isNameStart_iff, isNamePart_iff]
  exact ⟨fun ⟨start, parts⟩ ↦ ⟨start, parts⟩, fun ⟨start, parts⟩ ↦ .word start parts⟩

instance : DecidablePred IsWord
  | [] => .isFalse nofun
  | _ :: _ => decidable_of_iff' _ isWord_cons_iff

theorem isDigit_eq_false_of_isLetter (h : IsLetter c) : c.isDigit = false := by
  rcases h with h | rfl | rfl
  · exact isDigit_eq_false_of_isAlpha h
  · rfl
  · rfl

/-- The kinds of lexemes, by what they begin with. -/
inductive Kind where
  | newline | word | number | string | symbol
deriving DecidableEq

def Kind.of (c : Char) : Kind :=
  if c = '\n' then .newline
  else if isNameStart c then .word
  else if c.isDigit then .number
  else if c = '"' ∨ c = '\'' then .string
  else .symbol

theorem Kind.of_nameStart (h : isNameStart c = true) : Kind.of c = .word := by
  have hnewline : c ≠ '\n' := by
    rintro rfl
    cases h
  rw [Kind.of, if_neg hnewline, if_pos h]

theorem Kind.of_digit (h : c.isDigit = true) : Kind.of c = .number := by
  have hnewline : c ≠ '\n' := by
    rintro rfl
    cases h
  have hstart : ¬isNameStart c = true := fun hstart ↦ by
    rw [isDigit_eq_false_of_isLetter (isNameStart_iff.mp hstart)] at h
    cases h
  rw [Kind.of, if_neg hnewline, if_neg hstart, if_pos h]

theorem exists_head_spelling (s : Symbol) :
    ∃ c cs, s.spelling.toList = c :: cs ∧ Kind.of c = .symbol := by
  cases s <;> exact ⟨_, _, rfl, by decide⟩

/-- Every token but the end of a text is spelled by something. -/
theorem Spells.ne_nil {slice : List Char} {t : Token} (h : Spells slice t) : slice ≠ [] := by
  cases h with
  | newline | string => nofun
  | keyword k =>
    cases k
    all_goals decide
  | identifier word =>
    intro hnil
    rw [hnil] at word
    cases word
  | integer h => exact h.nonempty
  | decimal hwhole | exponential hwhole => exact List.append_ne_nil_of_left_ne_nil hwhole.nonempty _
  | symbol s =>
    obtain ⟨c, cs, hspelling, -⟩ := exists_head_spelling s
    rw [hspelling]
    exact List.cons_ne_nil c cs

theorem kind_of_digits {digits more : List Char} (h : IsDigits digits)
    (hlead : digits ++ more <+: c :: cs) : Kind.of c = .number := by
  obtain ⟨hne, hdigits⟩ := h
  cases digits with
  | nil => exact absurd rfl hne
  | cons d ds =>
    obtain ⟨rfl, -⟩ := List.cons_prefix_cons.mp hlead
    exact Kind.of_digit (hdigits d List.mem_cons_self)

/-- What a text begins with tells of which kind the lexeme is. -/
theorem Pattern.by_kind (h : Pattern longer) (hlead : longer <+: c :: cs) :
    match Kind.of c with
    | .newline => longer = ['\n']
    | .word => IsWord longer
    | .number => IsNumber longer
    | .string => IsString longer
    | .symbol => IsSymbol longer := by
  cases h with
  | newline =>
    obtain ⟨rfl, -⟩ := List.cons_prefix_cons.mp hlead
    rfl
  | word h =>
    obtain ⟨start, parts⟩ := h
    obtain ⟨rfl, -⟩ := List.cons_prefix_cons.mp hlead
    rw [Kind.of_nameStart (isNameStart_iff.mpr start)]
    exact .word start parts
  | number h =>
    have hkind : Kind.of c = .number := by
      cases h with
      | integer h => exact kind_of_digits h (by rwa [List.append_nil])
      | decimal hwhole => exact kind_of_digits hwhole hlead
      | exponential hwhole => exact kind_of_digits hwhole hlead
    rw [hkind]
    exact h
  | string h =>
    have hkind : Kind.of c = .string := by
      obtain ⟨quote, -⟩ := h
      obtain ⟨rfl, -⟩ := List.cons_prefix_cons.mp hlead
      rcases quote with rfl | rfl
      · decide
      · decide
    rw [hkind]
    exact h
  | symbol h =>
    have hkind : Kind.of c = .symbol := by
      cases h with
      | symbol s =>
        obtain ⟨d, ds, hspelling, hkind⟩ := exists_head_spelling s
        rw [hspelling] at hlead
        rwa [← (List.cons_prefix_cons.mp hlead).1]
      | comment =>
        obtain ⟨rfl, -⟩ := List.cons_prefix_cons.mp hlead
        decide
    rw [hkind]
    exact h

end

/-! ## Words -/

section

variable {c : Char} {cs longer : List Char}

theorem length_le_length_takeWhile {p : Char → Bool} (hlonger : ∀ d ∈ longer, p d = true)
    (hlead : longer <+: cs) : longer.length ≤ (cs.takeWhile p).length := by
  obtain ⟨more, rfl⟩ := hlead
  rw [List.takeWhile_append_of_pos hlonger, List.length_append]
  exact Nat.le_add_right _ _

theorem spells_word {name : String} (h : IsWord name.toList) : Spells name.toList (word name) := by
  rw [word]
  split
  next k hk =>
    have hname : k.spelling = name := by
      simpa using List.find?_some hk
    rw [← hname]
    exact .keyword k
  next hnone =>
    refine .identifier h fun k hname ↦ ?_
    have := List.find?_eq_none.mp hnone k (Keyword.mem_all k)
    exact this (by simpa using hname)

theorem longest_word (hc : isNameStart c = true) :
    Longest (c :: cs.takeWhile isNamePart) (c :: cs) := by
  intro longer hpattern hlead
  have hword := hpattern.by_kind hlead
  rw [Kind.of_nameStart hc] at hword
  obtain ⟨-, parts⟩ := hword
  obtain ⟨-, hlead⟩ := List.cons_prefix_cons.mp hlead
  have hparts : ∀ d ∈ _, isNamePart d = true := fun d hd ↦ isNamePart_iff.mpr (parts d hd)
  exact Nat.succ_le_succ (length_le_length_takeWhile hparts hlead)

end

/-! ## Numbers -/

section

variable {c : Char} {cs digits text rest : List Char} {e : Int}

theorem digitsValue_eq (digits : List Char) : digitsValue digits = decimalValue digits := by
  induction digits using List.reverseRecOn with
  | nil => rfl
  | append_singleton ds d ih =>
    rw [digitsValue, List.foldl_append, ← digitsValue, ih, decimalValue, decimalValue,
      List.reverse_concat, List.map_cons, Nat.ofDigits_cons, Nat.add_comm]
    rfl

theorem isDigits_takeWhile (h : ¬(cs.takeWhile Char.isDigit).isEmpty = true) :
    IsDigits (cs.takeWhile Char.isDigit) where
  nonempty := by simpa using h
  digits := List.all_eq_true.mp List.all_takeWhile

theorem isDigits_whole (hc : c.isDigit = true) : IsDigits (c :: cs.takeWhile Char.isDigit) where
  nonempty := List.cons_ne_nil _ _
  digits := List.forall_mem_cons.mpr ⟨hc, List.all_eq_true.mp List.all_takeWhile⟩

theorem takeWhile_isEmpty_eq_false (h : IsDigits digits) (more : List Char) :
    ((digits ++ more).takeWhile Char.isDigit).isEmpty = false := by
  rw [List.takeWhile_append_of_pos h.digits, List.isEmpty_eq_false_iff]
  exact List.append_ne_nil_of_left_ne_nil h.nonempty _

theorem isExponent_of_exponentPart? (h : exponentPart? cs = some (text, e, rest)) :
    IsExponent text e := by
  rcases cs with _ | ⟨letter, cs⟩
  · cases h
  · simp only [exponentPart?] at h
    split at h
    next hletter =>
      have hletter : letter = 'e' ∨ letter = 'E' := by simpa using hletter
      split at h
      next =>
        split at h
        next => cases h
        next hdigits =>
          cases h
          rw [digitsValue_eq]
          exact .plus hletter (isDigits_takeWhile hdigits)
      next =>
        split at h
        next => cases h
        next hdigits =>
          cases h
          rw [digitsValue_eq]
          exact .minus hletter (isDigits_takeWhile hdigits)
      next =>
        split at h
        next => cases h
        next hdigits =>
          cases h
          rw [digitsValue_eq]
          exact .plain hletter (isDigits_takeWhile hdigits)
    next => cases h

/-- Where an exponent stands, one is found that is no shorter. -/
theorem exists_exponentPart? (h : IsExponent text e) (more : List Char) :
    ∃ text' e' rest, exponentPart? (text ++ more) = some (text', e', rest) ∧
      text.length ≤ text'.length := by
  have hlength {digits : List Char} (h : IsDigits digits) :
      digits.length ≤ ((digits ++ more).takeWhile Char.isDigit).length := by
    rw [List.takeWhile_append_of_pos h.digits, List.length_append]
    exact Nat.le_add_right _ _
  have hletter {letter : Char} (h : letter = 'e' ∨ letter = 'E') :
      (letter == 'e' || letter == 'E') = true := by simpa using h
  cases h with
  | @plain letter digits hl h =>
    have hhead : ∃ d ds, digits ++ more = d :: ds ∧ d.isDigit = true := by
      obtain ⟨hne, hdigits⟩ := h
      cases digits with
      | nil => exact absurd rfl hne
      | cons d ds => exact ⟨d, ds ++ more, rfl, hdigits d List.mem_cons_self⟩
    have hempty := takeWhile_isEmpty_eq_false h more
    have hlength := hlength h
    obtain ⟨d, ds, heq, hd⟩ := hhead
    rw [heq] at hempty hlength
    simp only [List.cons_append, exponentPart?, hletter hl, if_true, heq]
    split
    next h => cases h; cases hd
    next h => cases h; cases hd
    next =>
      rw [hempty]
      exact ⟨_, _, _, rfl, Nat.succ_le_succ hlength⟩
  | plus hl h =>
    simp only [List.cons_append, exponentPart?, hletter hl, if_true]
    rw [takeWhile_isEmpty_eq_false h more]
    exact ⟨_, _, _, rfl, Nat.succ_le_succ (Nat.succ_le_succ (hlength h))⟩
  | minus hl h =>
    simp only [List.cons_append, exponentPart?, hletter hl, if_true]
    rw [takeWhile_isEmpty_eq_false h more]
    exact ⟨_, _, _, rfl, Nat.succ_le_succ (Nat.succ_le_succ (hlength h))⟩

/-- The lexeme of digits. -/
def integer (whole rest : List Char) : Lexeme :=
  if digitsValue whole < integerLimit then
    ⟨.token (.integer (Int64.ofNat (digitsValue whole))), whole, rest⟩
  else ⟨.fault (.invalidNumber (String.ofList whole)), whole, rest⟩

/-- The three forms of a number, by what stands behind its first digits. -/
inductive NumberForm (whole rest : List Char) : Lexeme → Prop
  | integer (h : ∀ ds, rest = '.' :: ds → ds.takeWhile Char.isDigit = []) :
    NumberForm whole rest (integer whole rest)
  | decimal {ds : List Char} (point : rest = '.' :: ds)
    (places : IsDigits (ds.takeWhile Char.isDigit))
    (exponent : exponentPart? (ds.dropWhile Char.isDigit) = none) :
    NumberForm whole rest ⟨.token (.float (Binary64.ofDecimal
      (digitsValue (whole ++ ds.takeWhile Char.isDigit)) (-(ds.takeWhile Char.isDigit).length))),
      whole ++ '.' :: ds.takeWhile Char.isDigit, ds.dropWhile Char.isDigit⟩
  | exponential {ds text more : List Char} {e : Int} (point : rest = '.' :: ds)
    (places : IsDigits (ds.takeWhile Char.isDigit))
    (exponent : exponentPart? (ds.dropWhile Char.isDigit) = some (text, e, more)) :
    NumberForm whole rest ⟨.token (.float (Binary64.ofDecimal
      (digitsValue (whole ++ ds.takeWhile Char.isDigit)) (e - (ds.takeWhile Char.isDigit).length))),
      whole ++ '.' :: (ds.takeWhile Char.isDigit ++ text), more⟩

theorem numberForm (c : Char) (cs : List Char) :
    NumberForm (c :: cs.takeWhile Char.isDigit) (cs.dropWhile Char.isDigit) (number c cs) := by
  rw [number]
  dsimp only
  split
  next ds hpoint =>
    split
    next hempty =>
      refine hpoint ▸ .integer fun ds' hds' ↦ ?_
      cases hds'
      exact List.isEmpty_iff.mp hempty
    next hplaces =>
      split
      next text e more hexponent =>
        rw [List.append_assoc, List.cons_append]
        exact .exponential hpoint (isDigits_takeWhile hplaces) hexponent
      next hexponent => exact .decimal hpoint (isDigits_takeWhile hplaces) hexponent
  next hpoint => exact .integer fun ds hds ↦ absurd hds (hpoint ds)

theorem spells_number {t : Token} (hc : c.isDigit = true)
    (h : (number c cs).reading = .token t) : Spells (number c cs).text t := by
  have hwhole : IsDigits (c :: cs.takeWhile Char.isDigit) := isDigits_whole hc
  have hform := numberForm c cs
  generalize number c cs = lexeme at h hform ⊢
  cases hform with
  | integer =>
    rw [integer] at h ⊢
    split at h
    next hlt =>
      cases h
      rw [if_pos hlt]
      refine .integer hwhole ?_
      rw [← digitsValue_eq]
      exact Int64.toInt_ofNat_of_lt hlt
    next => cases h
  | decimal _ places =>
    cases h
    rw [digitsValue_eq]
    exact .decimal hwhole places
  | exponential _ places exponent =>
    cases h
    rw [digitsValue_eq]
    exact .exponential hwhole places (isExponent_of_exponentPart? exponent)

/-- Digits up to a character that is none. -/
theorem span_digits (h : IsDigits digits) {d : Char} (hd : d.isDigit = false)
    (more : List Char) :
    (digits ++ d :: more).takeWhile Char.isDigit = digits ∧
      (digits ++ d :: more).dropWhile Char.isDigit = d :: more := by
  rw [List.takeWhile_append_of_pos h.digits, List.dropWhile_append_of_pos h.digits,
    List.takeWhile_cons_of_neg (by rw [hd]; exact Bool.false_ne_true),
    List.dropWhile_cons_of_neg (by rw [hd]; exact Bool.false_ne_true)]
  exact ⟨List.append_nil digits, rfl⟩

theorem NumberForm.length_le {whole rest : List Char} {lexeme : Lexeme}
    (h : NumberForm whole rest lexeme) : whole.length ≤ lexeme.text.length := by
  cases h with
  | integer =>
    rw [Lexeme.integer]
    split
    · exact Nat.le_refl _
    · exact Nat.le_refl _
  | decimal | exponential =>
    rw [List.length_append]
    exact Nat.le_add_right _ _

theorem longest_number (hc : c.isDigit = true) : Longest (number c cs).text (c :: cs) := by
  intro longer hpattern hlead
  have hnumber := hpattern.by_kind hlead
  rw [Kind.of_digit hc] at hnumber
  obtain ⟨more, hmore⟩ := hlead
  have htake : (c :: cs).takeWhile Char.isDigit = c :: cs.takeWhile Char.isDigit :=
    List.takeWhile_cons_of_pos hc
  have hdrop : (c :: cs).dropWhile Char.isDigit = cs.dropWhile Char.isDigit :=
    List.dropWhile_cons_of_pos hc
  have hform := numberForm c cs
  rw [← htake, ← hdrop, ← hmore] at hform
  generalize number c cs = lexeme at hform ⊢
  cases hnumber with
  | integer h =>
    refine Nat.le_trans ?_ hform.length_le
    exact length_le_length_takeWhile h.digits (List.prefix_append _ _)
  | @decimal whole places hwhole hplaces =>
    rw [List.append_assoc, List.cons_append] at hform
    obtain ⟨htake, hdrop⟩ := span_digits hwhole (d := '.') rfl (places ++ more)
    rw [htake, hdrop] at hform
    have hlength : places.length ≤ ((places ++ more).takeWhile Char.isDigit).length :=
      length_le_length_takeWhile hplaces.digits (List.prefix_append _ _)
    cases hform with
    | integer h =>
      have hempty := takeWhile_isEmpty_eq_false hplaces more
      rw [h _ rfl] at hempty
      cases hempty
    | decimal point =>
      cases point
      simp only [List.length_append, List.length_cons]
      omega
    | exponential point =>
      cases point
      simp only [List.length_append, List.length_cons]
      omega
  | @exponential whole places exponent e hwhole hplaces hexponent =>
    rw [List.append_assoc, List.cons_append, List.append_assoc] at hform
    obtain ⟨htake, hdrop⟩ :=
      span_digits hwhole (d := '.') rfl (places ++ (exponent ++ more))
    rw [htake, hdrop] at hform
    -- The letter of the exponent ends the places, so it is found where it stands.
    have hspan : (places ++ (exponent ++ more)).takeWhile Char.isDigit = places ∧
        (places ++ (exponent ++ more)).dropWhile Char.isDigit = exponent ++ more := by
      cases hexponent with
      | plain letter | plus letter | minus letter =>
        refine span_digits hplaces ?_ _
        rcases letter with rfl | rfl
        · rfl
        · rfl
    obtain ⟨text, e', rest, hfound, hlength⟩ := exists_exponentPart? hexponent more
    cases hform with
    | integer h =>
      have hempty := takeWhile_isEmpty_eq_false hplaces (exponent ++ more)
      rw [h _ rfl] at hempty
      cases hempty
    | decimal point _ hnone =>
      cases point
      rw [hspan.2, hfound] at hnone
      cases hnone
    | exponential point _ hsome =>
      cases point
      rw [hspan.2, hfound] at hsome
      cases hsome
      rw [hspan.1]
      simp only [List.length_append, List.length_cons]
      omega

end

/-! ## Strings -/

section

variable {q c : Char} {cs body value more : List Char} {t : Token}

theorem isEscape_unescapeChar (c : Char) : IsEscape c (unescapeChar c) := by
  rw [unescapeChar.eq_def]
  split
  · exact .newline
  · exact .tab
  · exact .carriageReturn
  · exact .null
  next hn ht hr h0 =>
    refine .other fun hmem ↦ ?_
    simp only [List.mem_cons, List.not_mem_nil, or_false] at hmem
    rcases hmem with h | h | h | h
    · exact hn h
    · exact ht h
    · exact hr h
    · exact h0 h

/-- What was read up to a closing quote is the body of a string. -/
theorem isQuoted_of_quoted (h : (quoted q cs).2.2 = true) :
    ∃ inner, (quoted q cs).1 = inner ++ [q] ∧ IsQuoted q inner (unescape inner) := by
  fun_induction quoted q cs with
  | case1 => cases h
  | case2 => cases h
  | case3 => cases h
  | case4 d cs hnewline body rest closed hquoted ih =>
    rw [hquoted] at ih
    obtain ⟨inner, rfl, hinner⟩ := ih h
    refine ⟨'\\' :: d :: inner, rfl, ?_⟩
    rw [unescape]
    exact .escape hnewline (isEscape_unescapeChar d) hinner
  | case5 cs hopen hescape => exact ⟨[], rfl, .nil⟩
  | case6 => cases h
  | case7 c cs hopen hescape hquote hnewline body rest closed hquoted ih =>
    rw [hquoted] at ih
    obtain ⟨inner, rfl, hinner⟩ := ih h
    refine ⟨c :: inner, rfl, ?_⟩
    have hbackslash : c ≠ '\\' := by
      rintro rfl
      rcases cs with _ | ⟨d, cs⟩
      · exact hopen rfl rfl
      · exact hescape d cs rfl rfl
    have hunescape : unescape (c :: inner) = c :: unescape inner := by
      rw [unescape]
      · exact fun d ds h ↦ absurd h hbackslash
      · exact fun h ↦ absurd h hbackslash
    rw [hunescape]
    exact .plain hquote hbackslash hnewline hinner

/-- The body of a string is read up to its closing quote. -/
theorem quoted_append_quote (hq : q = '"' ∨ q = '\'') (h : IsQuoted q body value)
    (more : List Char) : quoted q (body ++ q :: more) = (body ++ [q], more, true) := by
  have hbackslash : q ≠ '\\' := by
    rcases hq with rfl | rfl
    · decide
    · decide
  induction h with
  | nil =>
    rw [List.nil_append, List.nil_append, quoted, if_pos rfl]
    · exact fun h ↦ absurd h hbackslash
    · exact fun d ds h ↦ absurd h hbackslash
  | plain quote backslash newline _ ih =>
    rw [List.cons_append, quoted, if_neg quote, if_neg newline, ih]
    · rfl
    · exact fun h ↦ absurd h backslash
    · exact fun d ds h ↦ absurd h backslash
  | escape newline _ _ ih =>
    rw [List.cons_append, List.cons_append, quoted, if_neg newline, ih]
    rfl

theorem spells_string (hq : q = '"' ∨ q = '\'') (h : (string q cs).reading = .token t) :
    Spells (string q cs).text t := by
  have hquoted (h : (quoted q cs).2.2 = true) := isQuoted_of_quoted h
  rw [string] at h ⊢
  generalize quoted q cs = found at h hquoted ⊢
  obtain ⟨body, rest, closed⟩ := found
  cases closed with
  | false => cases h
  | true =>
    cases h
    obtain ⟨inner, hbody, hinner⟩ := hquoted rfl
    obtain rfl : body = inner ++ [q] := hbody
    dsimp only
    rw [if_pos rfl, List.dropLast_concat]
    exact .string hq hinner

theorem longest_string (hq : q = '"' ∨ q = '\'') : Longest (string q cs).text (q :: cs) := by
  intro longer hpattern hlead
  have hstring := hpattern.by_kind hlead
  have hkind : Kind.of q = .string := by
    rcases hq with rfl | rfl
    · decide
    · decide
  rw [hkind] at hstring
  obtain ⟨-, hbody⟩ := hstring
  obtain ⟨heq, more, hmore⟩ := List.cons_prefix_cons.mp hlead
  subst heq
  rw [string, ← hmore, List.append_assoc, List.singleton_append, quoted_append_quote hq hbody]
  exact Nat.le_refl _

end

/-! ## Symbols -/

section

variable {c d : Char} {cs longer : List Char} {s : Symbol} {t : Token}

theorem spelling_of_doubleSymbol? (h : doubleSymbol? c d = some s) :
    s.spelling.toList = [c, d] := by
  rw [doubleSymbol?.eq_def] at h
  split at h
  all_goals cases h
  all_goals rfl

theorem spelling_of_singleSymbol? (h : singleSymbol? c = some s) : s.spelling.toList = [c] := by
  rw [singleSymbol?.eq_def] at h
  split at h
  all_goals cases h
  all_goals rfl

theorem spells_symbol (h : (symbol c cs).reading = .token t) : Spells (symbol c cs).text t := by
  rw [symbol] at h ⊢
  cases hdouble : cs.head?.bind (doubleSymbol? c) with
  | some s =>
    rw [hdouble] at h
    cases h
    obtain ⟨d, hd, hs⟩ := Option.bind_eq_some_iff.mp hdouble
    obtain ⟨ds, rfl⟩ := List.head?_eq_some_iff.mp hd
    have htext := Spells.symbol s
    rwa [spelling_of_doubleSymbol? hs] at htext
  | none =>
    rw [hdouble] at h
    dsimp only at h ⊢
    cases hsingle : singleSymbol? c with
    | some s =>
      rw [hsingle] at h
      cases h
      have htext := Spells.symbol s
      rwa [spelling_of_singleSymbol? hsingle] at htext
    | none =>
      rw [hsingle] at h
      cases h

theorem symbol_of_doubleSymbol? (h : doubleSymbol? c d = some s) (cs : List Char) :
    symbol c (d :: cs) = ⟨.token (.symbol s), [c, d], cs⟩ := by
  rw [symbol, List.head?_cons, Option.bind_some, h]
  rfl

theorem one_le_length_symbol (c : Char) (cs : List Char) : 1 ≤ (symbol c cs).text.length := by
  rw [symbol]
  split
  · exact Nat.succ_le_succ (Nat.zero_le _)
  · split
    · exact Nat.le_refl 1
    · exact Nat.le_refl 1

/-- A symbol is one character, or one of those that `doubleSymbol?` knows. -/
theorem spelling_cases (s : Symbol) : s.spelling.toList.length = 1 ∨
    ∃ c d, s.spelling.toList = [c, d] ∧ doubleSymbol? c d = some s := by
  cases s with
  | equal | notEqual | lessEqual | greaterEqual | andAnd | orOr => exact .inr ⟨_, _, rfl, rfl⟩
  | _ => exact .inl rfl

theorem longest_symbol (hkind : Kind.of c = .symbol)
    (hcomment : c = '/' → ∀ d ∈ cs.head?, d ≠ '/' ∧ d ≠ '*') :
    Longest (symbol c cs).text (c :: cs) := by
  intro longer hpattern hlead
  have hsymbol := hpattern.by_kind hlead
  rw [hkind] at hsymbol
  cases hsymbol with
  | symbol s =>
    rcases spelling_cases s with hone | ⟨a, b, hspelling, hdouble⟩
    · rw [hone]
      exact one_le_length_symbol c cs
    · rw [hspelling] at hlead ⊢
      obtain ⟨more, hmore⟩ := hlead
      cases hmore
      exact Nat.le_of_eq (congrArg (·.text.length) (symbol_of_doubleSymbol? hdouble more)).symm
  | @comment d hd =>
    obtain ⟨more, hmore⟩ := hlead
    cases hmore
    have hnone := hcomment rfl d rfl
    rcases hd with rfl | rfl
    · exact absurd rfl hnone.1
    · exact absurd rfl hnone.2

end

/-! ## Comments -/

/-- A block comment is read up to where it is first closed. -/
theorem exists_body_of_closeComment? {cs body rest : List Char}
    (h : closeComment? cs = some (body, rest)) :
    ∃ inner, body = inner ++ ['*', '/'] ∧ ¬['*', '/'] <:+: inner ++ ['*'] := by
  fun_induction closeComment? cs generalizing body with
  | case1 cs =>
    cases h
    exact ⟨[], rfl, fun hinfix ↦ absurd hinfix.length_le (by decide)⟩
  | case2 c cs hopen ih =>
    obtain ⟨⟨body, rest⟩, hbody, heq⟩ := Option.map_eq_some_iff.mp h
    cases heq
    obtain ⟨inner, rfl, hinner⟩ := ih hbody
    refine ⟨c :: inner, rfl, fun hinfix ↦ ?_⟩
    rcases List.infix_cons_iff.mp hinfix with hlead | hinfix
    · -- The first two characters would close it.
      obtain ⟨rfl, hslash⟩ := List.cons_prefix_cons.mp hlead
      rcases inner with _ | ⟨d, inner⟩
      · cases (List.cons_prefix_cons.mp hslash).1
      · obtain ⟨rfl, -⟩ := List.cons_prefix_cons.mp hslash
        exact hopen _ rfl (closeComment_append hbody).symm
    · exact hinner hinfix
  | case3 => cases h

/-! ## The scanner -/

section

variable {c : Char} {cs : List Char} {lexeme : Lexeme} {t : Token}

/-- What the scanner returns, by what the text begins with. -/
inductive Form (c : Char) (cs : List Char) : Lexeme → Prop
  | blanks (h : isBlank c = true) :
    Form c cs ⟨.skipped, c :: cs.takeWhile isBlank, cs.dropWhile isBlank⟩
  | newline (h : c = '\n') : Form c cs ⟨.token .newline, [c], cs⟩
  | word (h : isNameStart c = true) :
    Form c cs ⟨.token (Lexeme.word (String.ofList (c :: cs.takeWhile isNamePart))),
      c :: cs.takeWhile isNamePart, cs.dropWhile isNamePart⟩
  | number (h : c.isDigit = true) : Form c cs (number c cs)
  | string (h : c = '"' ∨ c = '\'') : Form c cs (string c cs)
  | lineComment {r : List Char} (hc : c = '/') (hcs : cs = '/' :: r) :
    Form c cs ⟨.skipped, c :: '/' :: r.takeWhile (· != '\n'), r.dropWhile (· != '\n')⟩
  | blockComment {r body rest : List Char} (hc : c = '/') (hcs : cs = '*' :: r)
    (hclose : closeComment? r = some (body, rest)) :
    Form c cs ⟨.skipped, c :: '*' :: body, rest⟩
  | openComment {r : List Char} : Form c cs ⟨.fault .unterminatedComment, c :: '*' :: r, []⟩
  | symbol (hkind : Kind.of c = .symbol) (hcomment : c = '/' → ∀ d ∈ cs.head?, d ≠ '/' ∧ d ≠ '*') :
    Form c cs (symbol c cs)

theorem form_scan (c : Char) (cs : List Char) : Form c cs (scan c cs) := by
  simp only [scan, Bool.or_eq_true, decide_eq_true_eq]
  split
  next h => exact .blanks h
  split
  next h => exact .newline h
  split
  next h => exact .word h
  split
  next h => exact .number h
  split
  next h => exact .string h
  next hnewline hstart hdigit hquote =>
  split
  next => exact .lineComment rfl rfl
  next =>
    split
    next hclose => exact .blockComment rfl rfl hclose
    next => exact .openComment
  next hline hblock =>
    refine .symbol ?_ fun hc d hd ↦ ?_
    · rw [Kind.of, if_neg hnewline, if_neg hstart, if_neg hdigit, if_neg hquote]
    · obtain ⟨ds, rfl⟩ := List.head?_eq_some_iff.mp hd
      exact ⟨fun h ↦ hline ds hc (h ▸ rfl), fun h ↦ hblock ds hc (h ▸ rfl)⟩

/-- What is read as a token spells it, and nothing longer is a lexeme. -/
theorem spells_scan (h : (scan c cs).reading = .token t) :
    Spells (scan c cs).text t ∧ Longest (scan c cs).text (c :: cs) := by
  have hform := form_scan c cs
  generalize scan c cs = lexeme at h hform ⊢
  cases hform with
  | blanks | lineComment | blockComment | openComment => cases h
  | newline hc =>
    cases h
    subst hc
    refine ⟨.newline, fun longer hpattern hlead ↦ ?_⟩
    obtain rfl : longer = ['\n'] := hpattern.by_kind hlead
    exact Nat.le_refl 1
  | word hc =>
    cases h
    refine ⟨?_, longest_word hc⟩
    have hword : IsWord (String.ofList (c :: cs.takeWhile isNamePart)).toList := by
      rw [String.toList_ofList]
      refine .word (isNameStart_iff.mp hc) fun d hd ↦ isNamePart_iff.mp ?_
      exact List.all_eq_true.mp List.all_takeWhile d hd
    have hspells := spells_word hword
    rwa [String.toList_ofList] at hspells
  | number hc => exact ⟨spells_number hc h, longest_number hc⟩
  | string hc => exact ⟨spells_string hc h, longest_string hc⟩
  | symbol hkind hcomment => exact ⟨spells_symbol h, longest_symbol hkind hcomment⟩

theorem reading_number_ne_skipped (c : Char) (cs : List Char) :
    (number c cs).reading ≠ .skipped := by
  have hform := numberForm c cs
  generalize number c cs = lexeme at hform ⊢
  intro h
  cases hform with
  | integer =>
    rw [integer] at h
    split at h
    · cases h
    · cases h
  | decimal | exponential => cases h

theorem reading_string_ne_skipped (q : Char) (cs : List Char) :
    (string q cs).reading ≠ .skipped := by
  intro h
  rw [string] at h
  split at h
  split at h
  · cases h
  · cases h

theorem reading_symbol_ne_skipped (c : Char) (cs : List Char) :
    (symbol c cs).reading ≠ .skipped := by
  intro h
  rw [symbol] at h
  split at h
  · cases h
  · split at h
    · cases h
    · cases h

/-- What is skipped is blank, or a comment as a whole. -/
theorem skips_scan (h : (scan c cs).reading = .skipped) :
    Skips (scan c cs).text (scan c cs).rest := by
  have hform := form_scan c cs
  generalize scan c cs = lexeme at h hform ⊢
  cases hform with
  | newline | word | openComment => cases h
  | number => exact absurd h (reading_number_ne_skipped c cs)
  | string => exact absurd h (reading_string_ne_skipped c cs)
  | symbol => exact absurd h (reading_symbol_ne_skipped c cs)
  | blanks hc =>
    refine .blanks (List.forall_mem_cons.mpr ⟨isBlank_iff.mp hc, fun d hd ↦ isBlank_iff.mp ?_⟩)
    exact List.all_eq_true.mp List.all_takeWhile d hd
  | @lineComment r hc =>
    subst hc
    refine .lineComment (fun hmem ↦ ?_) fun d hd ↦ ?_
    · have := List.all_eq_true.mp List.all_takeWhile _ hmem
      exact absurd this (by decide)
    · have := List.head?_dropWhile_not (· != '\n') r
      rw [Option.mem_def.mp hd] at this
      simpa using this
  | blockComment hc _ hclose =>
    subst hc
    obtain ⟨inner, rfl, hinner⟩ := exists_body_of_closeComment? hclose
    exact .blockComment hinner

end

end Lexeme

end BuildScript
