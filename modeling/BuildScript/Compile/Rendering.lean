import BuildScript.Compile.Message
import BuildScript.Text.Blank
import BuildScript.Text.Width

/-!
# Rendered messages

Messages with the lines of source they are about. A place within one line is underlined with carets;
a place that spans several lines is drawn as a bracket at their left, and of a long bracket only the
first lines and the last ones are shown.

Places are byte offsets, as everywhere; columns on the screen depend on tabs and wide characters.
-/

namespace BuildScript

namespace Rendering

/-- A line of source: its number, the offset of its first byte, and its characters. -/
structure SourceLine where
  number : Nat
  start : Nat
  chars : List Char
deriving Inhabited

def textSize (cs : List Char) : Nat := cs.foldl (fun n c ↦ n + c.utf8Size) 0

/-- The lines of a text from a line on, each with the line feed at its end. -/
def linesFrom (number start : Nat) (current : List Char) : List Char → List SourceLine
  | [] => [⟨number, start, current.reverse⟩]
  | c :: cs =>
    if c = '\n' then
      let line := (c :: current).reverse
      ⟨number, start, line⟩ :: linesFrom (number + 1) (start + textSize line) [] cs
    else linesFrom number start (c :: current) cs

def sourceLines (text : String) : List SourceLine := linesFrom 1 0 [] text.toList

/-- The last line that starts at or before an offset. -/
def lineAt (lines : List SourceLine) (offset : Nat) : SourceLine :=
  (lines.filter (·.start ≤ offset)).getLast?.getD default

/-- Characters that end at or before an offset of their line. -/
def charsBefore (offset : Nat) : List Char → Nat
  | [] => 0
  | c :: cs => if c.utf8Size ≤ offset then 1 + charsBefore (offset - c.utf8Size) cs else 0

/-- A character of a line as it is shown. -/
structure Cell where
  offset : Nat
  char : Char
  width : Nat

def tabWidth : Nat := 4

/-- The cells of characters from an offset and a column on. -/
def cellsFrom (offset column : Nat) : List Char → List Cell
  | [] => []
  | c :: cs =>
    let width := if c = '\t' then tabWidth - column % tabWidth else charWidth c
    ⟨offset, c, width⟩ :: cellsFrom (offset + c.utf8Size) (column + width) cs

/-- The characters of a line without what ends it. -/
def visible (line : SourceLine) : List Char :=
  (line.chars.reverse.dropWhile fun c ↦ c == '\n' || c == '\r' || c == '\x00').reverse

def repeated (n : Nat) (c : Char) : String := String.ofList (List.replicate n c)

/-- The line itself, tabs being shown as blanks. -/
def lineText (cs : List Char) : String :=
  String.join ((cellsFrom 0 0 cs).map fun cell ↦
    if cell.char = '\t' then repeated cell.width ' ' else cell.char.toString)

/-- The left margin of a line without a number. -/
def margin (padding : Nat) : String := repeated padding ' ' ++ " "

/-- The left margin of a line with a number. -/
def numbered (padding number : Nat) : String :=
  let digits := toString number
  repeated (padding - digits.length) ' ' ++ digits ++ " "

/-- Carets under the part of a line from one offset to another. They may stand one column behind the
end of the line, and between two carets blanks keep the columns. -/
def carets (start stop : Nat) (cs : List Char) : String :=
  let ends : Cell := ⟨textSize cs, '\x00', 1⟩
  String.join ((cellsFrom 0 0 cs ++ [ends]).map fun cell ↦
    if max start cell.offset < min stop (cell.offset + cell.char.utf8Size) then
      repeated cell.width '^'
    else if cell.offset < stop then repeated cell.width ' '
    else "")

/-- Where in the bracket of a place that spans several lines a line stands. -/
inductive Bracket where
  | opening (offset : Nat)
  | inner
  | closing (offset : Nat)

/-- Whether nothing but blanks stands in front of an offset of a line. -/
def startsLine (offset : Nat) (cs : List Char) : Bool :=
  offset ≤ textSize (cs.takeWhile CharSet.blank.contains)

/-- A line within a bracket, and behind its first or last line a row that draws the corner. -/
def bracketed (padding : Nat) (line : SourceLine) (b : Bracket) : String :=
  let cs := visible line
  let gutter :=
    match b with
    | .opening offset => if startsLine offset cs then " ╭" else "  "
    | .inner | .closing _ => " │"
  let underline (limit : Nat) : String :=
    repeated (((cellsFrom 0 0 cs).filter (·.offset < limit)).foldl (fun n cell ↦ n + cell.width) 0) '─'
  let corner :=
    match b with
    | .opening offset =>
      if startsLine offset cs then ""
      else margin padding ++ "│ ╭" ++ underline (offset + 1) ++ "^\n"
    | .inner => ""
    | .closing offset => margin padding ++ "│ ╰" ++ underline offset ++ "^\n"
  numbered padding line.number ++ "│" ++ gutter ++ " " ++ lineText cs ++ "\n" ++ corner

/-- How many lines behind the first line of a bracket are shown, and how many before its last. -/
def contextLines : Nat × Nat := (3, 1)

/-- The lines of a bracket. If more than one line in a row would be left out, a break is shown in
their place. -/
def bracket (padding : Nat) (lines : List SourceLine) (start stop : Nat) : String :=
  let first := lineAt lines start
  let last := lineAt lines stop
  let shown (number : Nat) : Bool :=
    number ≤ first.number + contextLines.1 || last.number ≤ number + contextLines.2
  let hidden := (last.number - first.number - 1) - (contextLines.1 + contextLines.2)
  String.join (lines.filterMap fun line ↦
    if line.number < first.number || last.number < line.number then none
    else if line.number = first.number then some (bracketed padding line (.opening (start - line.start)))
    else if line.number = last.number then some (bracketed padding line (.closing (stop - line.start)))
    else if shown line.number || hidden = 1 then some (bracketed padding line .inner)
    else if line.number = first.number + contextLines.1 + 1 then some (margin padding ++ "· │\n")
    else none)

/-- The lines of source that an error is about. -/
def snippet (e : SourceError) (sourceName sourceText : String) : String :=
  let lines := sourceLines sourceText
  let start := e.span.start
  let stop := max start e.span.stop
  let first := lineAt lines start
  let last := lineAt lines stop
  let padding := (toString last.number).length
  let column := charsBefore (start - first.start) first.chars + 1
  let oneLine := first.number == last.number
  let header := margin padding ++ "┌─ " ++ sourceName ++ ":" ++ toString first.number ++ ":" ++
    toString column ++ "\n" ++ margin padding ++ "│" ++ (if oneLine then "" else "  ") ++ "\n"
  if oneLine then
    let cs := visible first
    let here := start - first.start
    let stop := max (stop - first.start) (here + 1)
    header ++ numbered padding first.number ++ "│ " ++ lineText cs ++ "\n" ++
      margin padding ++ "│ " ++ carets here stop cs ++ "\n"
  else header ++ bracket padding lines start stop

def message : Message → String
  | .located e sourceName sourceText =>
    "error: " ++ e.message ++ "\n" ++ snippet e sourceName sourceText ++ "\n"
  | m => "error: " ++ m.text ++ "\n\n"

end Rendering

/-- All messages with the lines of source that they are about. -/
def MessageLog.render (log : MessageLog) : String :=
  String.join (log.messages.map Rendering.message)

end BuildScript
