import Stencil.Syntax.Fault
import Stencil.Text.Blank
import Stencil.Text.Width

/-!
# Reports

`Fault.report` draws a fault over the lines of its source: a heading, the place, the lines that the
span touches, and under them an arrow that leads to the message. The numbers of a span are taken as
positions of characters here; a span that does not fit the source leaves the heading alone.

A span within one line is underlined. A span over several lines is bracketed at the left, and only
its first and last line are shown. A span that goes one position past the source has no last line,
and the message is left out with it.
-/

namespace Stencil.Syntax

/-- A line of a source with its terminator, and the number of characters before it. -/
structure Line where
  offset : Nat
  content : List Char
deriving DecidableEq, Repr

namespace Line

/-- The characters that end a line. -/
def isTerminator (c : Char) : Bool :=
  c == '\n' || c == '\r' || c == '\x0b' || c == '\x0c' || c == '\u0085' || c == '\u2028' ||
    c == '\u2029'

/-- Splits off the first line. A carriage return takes a line feed with it. -/
def split : List Char → List Char × List Char
  | [] => ([], [])
  | '\r' :: '\n' :: rest => (['\r', '\n'], rest)
  | c :: rest =>
    if isTerminator c then ([c], rest)
    else
      let (line, rest) := split rest
      (c :: line, rest)

/-- The lines of a source. The bound is the number of characters. -/
def linesFrom : Nat → Nat → List Char → List Line
  | 0, _, _ => []
  | _, _, [] => []
  | n + 1, offset, cs =>
    let (line, rest) := split cs
    ⟨offset, line⟩ :: linesFrom n (offset + line.length) rest

/-- The lines of a source; an empty source has one empty line. -/
def ofSource (source : List Char) : List Line :=
  if source.isEmpty then [⟨0, []⟩] else linesFrom source.length 0 source

/-- Whether the line or its terminator holds a position. -/
def holds (l : Line) (position : Nat) : Bool :=
  l.offset ≤ position && position < l.offset + l.content.length

/-- The characters that are shown. -/
def shown (l : Line) : List Char := Text.trimEnd l.content

/-- The columns of the character at an index of a line; tabs go to the next multiple of four. -/
def columnsAt (index : Nat) (c : Char) : Nat :=
  if c = '\t' then (index / 4 + 1) * 4 - index
  else if Text.isBlank c then 1
  else Text.columns c

/-- The characters of a line as they are shown: a blank of any kind is a space. -/
def display (l : Line) : List Char :=
  l.shown.zipIdx.flatMap fun (c, i) =>
    if Text.isBlank c then List.replicate (columnsAt i c) ' ' else [c]

/-- Draws something under a line: for each index a first character, which is followed by as many
    of the second one as the character above is wider than one column. -/
def under (l : Line) (length : Nat) (draw : Nat → Char × Char) : List Char :=
  (List.range length).flatMap fun i =>
    let width := match l.shown[i]? with
      | some c => columnsAt i c
      | none => 1
    match width with
    | 0 => []
    | w + 1 => (draw i).1 :: List.replicate w (draw i).2

end Line

/-- The last line that starts at or before a position, with its index. -/
def lineAt (lines : List Line) (length position : Nat) : Option (Line × Nat) :=
  if position ≤ length then
    (lines.zipIdx.filter fun (l, _) => l.offset ≤ position).getLast?
  else none

/-- Spaces. -/
def spaces (n : Nat) : List Char := List.replicate n ' '

/-- A piece of a report: characters that make one line of it. -/
def row (cs : List Char) : List Char := cs ++ ['\n']

/-- The margin left of a line of the source, with its number. -/
def numbered (width : Nat) (index : Nat) : List Char :=
  let number := Nat.toDigits 10 (index + 1)
  ' ' :: (spaces (width - number.length) ++ number ++ " │ ".toList)

/-- The margin left of anything else. -/
def unnumbered (width : Nat) (bar : Char) : List Char := ' ' :: (spaces (width + 1) ++ [bar, ' '])

/-- The rows of a span within one line. -/
def inlineRows (width : Nat) (line : Line) (index : Nat) (span : Span) (message : List Char) :
    List Char :=
  let first := span.start - line.offset
  let last := span.stop - line.offset
  let arrow := max ((span.start + span.stop) / 2) span.start - line.offset
  let length := last + 2
  row (numbered width index ++ line.display) ++
  row (unnumbered width '│' ++ line.under length fun i =>
    let underlined := first ≤ i && i < last
    if i = arrow then (if underlined then ('┬', '─') else ('│', ' '))
    else if underlined then ('─', '─')
    else (' ', ' ')) ++
  row (unnumbered width '│' ++ (line.under length fun i =>
    if i = arrow then ('╰', '─') else if arrow < i then ('─', '─') else (' ', ' ')) ++
    ' ' :: message)

/-- The row of a line at which a bracket starts or ends. -/
def bracketed (width index : Nat) (corner : Char) (line : Line) : List Char :=
  row (numbered width index ++ [corner, '─', '▶', ' '] ++ line.display)

/-- The row for the lines within a bracket. -/
def skipped (width : Nat) : List Char := row (unnumbered width '┆' ++ "┆   ".toList)

/-- The rows of a span over several lines, given by their indices. -/
def multilineRows (width : Nat) (first last : Line × Nat) (message : List Char) : List Char :=
  let length := last.1.content.length + 2
  bracketed width first.2 '╭' first.1 ++
  (if first.2 + 1 < last.2 then skipped width else []) ++
  bracketed width last.2 '├' last.1 ++
  row (unnumbered width '│' ++ "│   ".toList ++ last.1.under length fun _ => (' ', ' ')) ++
  row (unnumbered width '│' ++ "╰───".toList ++ (last.1.under length fun _ => ('─', '─')) ++
    ' ' :: message)

/-- The rows of a span that goes past the source. -/
def unendedRows (width : Nat) (first last : Line × Nat) : List Char :=
  if first.2 = last.2 then row (unnumbered width '│')
  else bracketed width first.2 '╭' first.1 ++ skipped width

/-- The report of a fault (`format`). -/
def Fault.report (f : Fault) (source : List Char) (filename : String) : String :=
  let lines := Line.ofSource source
  let length := source.length
  let last := if f.span.stop ≤ f.span.start then f.span.start else f.span.stop - 1
  let heading := row ("Error: ".toList ++ f.message.toList)
  let alternatives := if f.expected.isEmpty then ""
    else "\nExpected: " ++ ", ".intercalate (f.expected.map Expectation.describe)
  let label := (f.message ++ alternatives).toList
  String.ofList <|
    match lineAt lines length f.span.start, lineAt lines length last with
    | some first, some final =>
      let width := (Nat.toDigits 10 (final.2 + 1)).length
      heading ++
      row (spaces (width + 2) ++ "╭─[".toList ++ filename.toList ++
        s!":{first.2 + 1}:{f.span.start - first.1.offset + 1}]".toList) ++
      row (spaces (width + 2) ++ ['│']) ++
      (if length < f.span.stop then unendedRows width first final
        else if first.2 = final.2 then inlineRows width first.1 first.2 f.span label
        else multilineRows width first final label) ++
      row (List.replicate (width + 2) '─' ++ ['╯'])
    | _, _ => heading

end Stencil.Syntax
