import DeclGraph.Text.Blank
import DeclGraph.Text.Columns
import DeclGraph.Text.Split

/-!
# Folding text

`fold width text` breaks a text into lines of a width.  Lines break between words; a word that fits
no line is cut.  Blanks belong to the word in front of them, and those that a line has no room for
are dropped.
-/

namespace DeclGraph

namespace Fold

/-- The text without the controls that move about: bell, backspace, tabulation and feed by lines and
pages, and carriage return. -/
def withoutControls (cs : List Char) : List Char :=
  cs.filter fun c => !([7, 8, 11, 12, 13].contains c.toNat)

/-- The text with blanks for every tabulator, up to the next multiple of eight columns; `column` is
where the text starts. -/
def expandTabs (column : Nat) : List Char → List Char
  | [] => []
  | c :: cs =>
    if c = '\t' then
      let room := 8 - column % 8
      List.replicate room ' ' ++ expandTabs (column + room) cs
    else c :: expandTabs (column + columnsOf c) cs

/-- A word with the blanks around it, and the text behind it; there is none in a text of blanks. -/
def word? (cs : List Char) : Option (List Char × List Char) :=
  let lead := cs.takeWhile isBlank
  let rest := cs.dropWhile isBlank
  let body := rest.takeWhile fun c => !isBlank c
  let behind := rest.dropWhile fun c => !isBlank c
  if body.isEmpty then none
  else some (lead ++ body ++ behind.takeWhile isBlank, behind.dropWhile isBlank)

/-- The words of a text, each with the blanks behind it, and the first one also with those in front
of it; `fuel` bounds their number. -/
def wordsWithin : Nat → List Char → List (List Char)
  | 0, _ => []
  | fuel + 1, cs =>
    match word? cs with
    | some (word, rest) => word :: wordsWithin fuel rest
    | none => []

/-- The words of a text. -/
def words (cs : List Char) : List (List Char) := wordsWithin cs.length cs

/-- A text cut into pieces of a width; `piece` is the piece that is being filled, last character
first, and `used` its width. -/
def chopFrom (width : Nat) (piece : List Char) (used : Nat) : List Char → List (List Char)
  | [] => [piece.reverse]
  | c :: cs =>
    if width < used + columnsOf c then piece.reverse :: chopFrom width [c] (columnsOf c) cs
    else chopFrom width (c :: piece) (used + columnsOf c) cs

/-- A text cut into pieces of a width. -/
def chop (width : Nat) (cs : List Char) : List (List Char) := chopFrom width [] 0 cs

/-- The lines of words behind the line that is being filled; `used` is its width. -/
def linesFrom (width : Nat) (line : List Char) (used : Nat) : List (List Char) → List (List Char)
  | [] => [line]
  | word :: rest =>
    let needed := columns (stripEnd word)
    if used + needed ≤ width then linesFrom width (line ++ word) (used + columns word) rest
    else if width < needed then
      let pieces := chop width word
      let last := pieces.getLastD []
      (if line.isEmpty then [] else [line]) ++ pieces.dropLast
        ++ linesFrom width last (columns last) rest
    else if used ≠ 0 ∧ line ≠ [] then line :: linesFrom width word (columns word) rest
    else linesFrom width (line ++ word) used rest

/-- The lines of a text without line ends. -/
def breakLine (width : Nat) (cs : List Char) : List (List Char) :=
  match words cs with
  | [] => [cs]
  | ws => linesFrom width [] 0 ws

/-- The line without the blanks at its end that it has no room for. -/
def dropExcess (width : Nat) (line : List Char) : List Char :=
  let blanks := line.length - (stripEnd line).length
  line.take (line.length - min blanks (line.length - width))

/-- The longest start of a text that takes no more than some columns. -/
def takeColumns : Nat → List Char → List Char
  | _, [] => []
  | room, c :: cs => if columnsOf c ≤ room then c :: takeColumns (room - columnsOf c) cs else []

/-- The line with exactly the columns of a width: cut off or filled up with blanks. -/
def fit (width : Nat) (line : List Char) : List Char :=
  let kept := takeColumns width line
  kept ++ List.replicate (width - columns kept) ' '

end Fold

/-- The lines of a text, each of the given width. -/
def fold (width : Nat) (text : String) : List String :=
  let lines := splitAt '\n' (Fold.withoutControls text.toList)
  let broken := lines.flatMap fun line => Fold.breakLine width (Fold.expandTabs 0 line)
  broken.map fun line => String.ofList (Fold.fit width (Fold.dropExcess width line))

end DeclGraph
