import DeclGraph.Batch.Outcome
import DeclGraph.Summary.Fold

/-!
# Summaries

The summary of a batch: a rule with a title, a table with a row for every file, and the number of
files with each status.  It is made for a terminal of eighty columns with colours.
-/

namespace DeclGraph

namespace Summary

/-! ### Colours -/

/-- What sets the style of the text behind it; styles are known by numbers. -/
def style (number : Nat) : String := "\x1b[" ++ Number.digits number ++ "m"

/-- What ends a style. -/
def plain : String := style 0

/-- A text in a style. -/
def styled (number : Nat) (text : String) : String := style number ++ text ++ plain

/-- The style of titles. -/
def bold : Nat := 1

/-- The style of the rule at the top. -/
def cyan : Nat := 36

/-- The colour of a status. -/
def colour : Status → Nat
  | .dumped => 32
  | .skipped => 36
  | .parseFailed => 31
  | .timedOut => 33
  | .failed => 31

/-! ### The table -/

/-- So many of one character. -/
def times (n : Nat) (c : Char) : String := String.ofList (List.replicate n c)

/-- The widths of the columns, without the blank on either side. -/
def widths : List Nat := [25, 5, 5, 5, 24]

/-- A line of the frame. -/
def frame (left line between right : Char) : String :=
  left.toString ++ between.toString.intercalate (widths.map fun w => times (w + 2) line)
    ++ right.toString

/-- A line of cells between strokes. -/
def cells (stroke : Char) (contents : List String) : String :=
  stroke.toString ++ stroke.toString.intercalate contents ++ stroke.toString

/-- A cell with a title. -/
def titleCell (title : String) : String := styled bold " " ++ styled bold title ++ styled bold " "

/-- A cell without a title. -/
def emptyTitle (width : Nat) : String := styled bold (times (width + 2) ' ')

/-- A title at the left of its column. -/
def titleAt (width : Nat) (title : String) : String :=
  titleCell (title ++ times (width - title.length) ' ')

/-- The head of the table. -/
def head : List String :=
  [frame '┏' '━' '┳' '┓',
    cells '┃' [emptyTitle 25, titleCell "statu", emptyTitle 5, emptyTitle 5, emptyTitle 24],
    cells '┃' [titleAt 25 "input", titleAt 5 "s", titleAt 5 "pars…", titleAt 5 "dump…",
      titleAt 24 "artifact"],
    frame '┡' '━' '╇' '┩']

/-- A number at the right of a column; one that is too long is cut off. -/
def numberText (width : Nat) (n? : Option Int) : String :=
  let text := (n?.map Number.ofInt).getD ""
  if text.length ≤ width then times (width - text.length) ' ' ++ text
  else String.ofList (text.toList.take (width - 1)) ++ "…"

/-- The lines of a row, as many as its longest cell has; shorter cells are filled up with blanks. -/
def rowLines (columns : List (Nat × List String)) : List String :=
  let height := (columns.map fun (_, lines) => lines.length).foldl max 0
  (List.range height).map fun i =>
    cells '│' (columns.map fun (width, lines) => " " ++ lines.getD i (times width ' ') ++ " ")

/-- The row of a file. -/
def row (o : Outcome) : List String :=
  let status := (fold 5 o.status.name).map (styled (colour o.status))
  rowLines [(25, fold 25 o.source), (5, status), (5, [numberText 5 o.parseMs?]),
    (5, [numberText 5 o.dumpMs?]), (24, fold 24 o.artifact.text)]

/-- The rule with the title. -/
def title : String :=
  styled cyan (times 35 '-' ++ " ") ++ "astdump" ++ styled cyan (" " ++ times 36 '-')

/-- The lines of the summary of a batch. -/
def lines (r : BatchReport) : List String :=
  [title] ++ head ++ r.outcomes.flatMap row ++ [frame '└' '─' '┴' '┘', r.countText]

end Summary

/-- The summary of a batch. -/
def BatchReport.summary (r : BatchReport) : String :=
  String.join ((Summary.lines r).map (· ++ "\n"))

end DeclGraph
