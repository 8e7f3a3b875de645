/-!
# Source spans

A `Place` is a position in a text; a `Span` is a range of bytes with the line and column of its
start. Offsets count UTF-8 bytes, columns count characters, and lines and columns start at one.

The counts of a place are exact: they are kept in words of the machine, and no text that fits into
memory has more lines or characters than such a word can tell. A span keeps only 32 bits of the line
and of the column: in a text with 2 ^ 32 lines, or that many characters in a line, it tells remainders.
-/

namespace BuildScript

/-- A position in a text, with its line and column as they are counted, before a span keeps them. -/
structure Place where
  /-- Bytes before the position. -/
  offset : Nat := 0
  line : Nat := 1
  column : Nat := 1
deriving DecidableEq, Repr

namespace Place

/-- The position behind one more character. -/
def next (p : Place) (c : Char) : Place :=
  if c = '\n' then ⟨p.offset + c.utf8Size, p.line + 1, 1⟩
  else ⟨p.offset + c.utf8Size, p.line, p.column + 1⟩

/-- The position behind a stretch of text. -/
def after (p : Place) (text : List Char) : Place := text.foldl next p

end Place

/-- A byte range with the line and column of its start. -/
structure Span where
  start : Nat
  stop : Nat
  line : UInt32
  column : UInt32
deriving DecidableEq, Repr

namespace Span

/-- The span of nodes that stand nowhere in a text. -/
def none : Span := ⟨0, 0, 0, 0⟩

instance : Inhabited Span := ⟨none⟩

/-- The range between two places. Only the low 32 bits of the line and of the column are kept. -/
def between (p q : Place) : Span := ⟨p.offset, q.offset, p.line.toUInt32, p.column.toUInt32⟩

def length (s : Span) : Nat := s.stop - s.start

def isEmpty (s : Span) : Bool := s.start == s.stop

/-- The smallest span that covers both; the line and column are those of the earlier start. -/
def merge (s t : Span) : Span :=
  let first := if s.start ≤ t.start then s else t
  ⟨min s.start t.start, max s.stop t.stop, first.line, first.column⟩

/-- Drops characters until `n` bytes are gone. -/
def dropBytes (n : Nat) : List Char → List Char
  | [] => []
  | c :: cs => if n = 0 then c :: cs else dropBytes (n - c.utf8Size) cs

/-- Takes characters until `n` bytes are reached. -/
def takeBytes (n : Nat) : List Char → List Char
  | [] => []
  | c :: cs => if n = 0 then [] else c :: takeBytes (n - c.utf8Size) cs

/-- The part of the text that the span covers, for a span on character boundaries. -/
def slice (s : Span) (text : List Char) : List Char := takeBytes s.length (dropBytes s.start text)

end Span

end BuildScript
