import DeclGraph.Json.Basic
import DeclGraph.Number.Layout

/-!
# Writing JSON

`Json.render` writes a value on one line, with `", "` between the entries and `": "` behind a
name; characters other than controls, quotes and backslashes stand as themselves.
`Json.renderIndented` writes a value over several lines with two blanks of indentation a level and
in ASCII: every other character is escaped, one above `FFFF` as a pair of code units.
-/

namespace DeclGraph

namespace Json

/-! ### Strings -/

/-- A code unit as an escape. -/
def unitEscape (n : Nat) : List Char :=
  let ds := Nat.toDigits 16 n
  '\\' :: 'u' :: (List.replicate (4 - ds.length) '0' ++ ds)

/-- The escape that a character has in every document. -/
def controlEscape? (c : Char) : Option (List Char) :=
  if c = '"' then some ['\\', '"']
  else if c = '\\' then some ['\\', '\\']
  else if c = '\n' then some ['\\', 'n']
  else if c = '\r' then some ['\\', 'r']
  else if c = '\t' then some ['\\', 't']
  else if c = '\x0c' then some ['\\', 'f']
  else if c = '\x08' then some ['\\', 'b']
  else if c.toNat < 0x20 then some (unitEscape c.toNat)
  else none

/-- A character inside a string. -/
def escapeChar (c : Char) : List Char := (controlEscape? c).getD [c]

/-- A character inside a string of an ASCII document. -/
def escapeCharAscii (c : Char) : List Char :=
  match controlEscape? c with
  | some escape => escape
  | none =>
    let n := c.toNat
    if n < 0x7F then [c]
    else if n < 0x10000 then unitEscape n
    else
      unitEscape (0xD800 + (n - 0x10000) / 0x400) ++ unitEscape (0xDC00 + (n - 0x10000) % 0x400)

/-- A string between quotation marks. -/
def quote (s : String) : String := String.ofList ('"' :: s.toList.flatMap escapeChar ++ ['"'])

/-- A string between quotation marks, in ASCII. -/
def quoteAscii (s : String) : String :=
  String.ofList ('"' :: s.toList.flatMap escapeCharAscii ++ ['"'])

/-! ### Values on one line -/

mutual

/-- A value on one line. -/
def render : Json → String
  | .null => "null"
  | .bool b => if b then "true" else "false"
  | .int n => Number.ofInt n
  | .float x => Number.Layout.document.render x
  | .string s => quote s
  | .array items => "[" ++ renderItems items ++ "]"
  | .object entries => "\x7b" ++ renderEntries entries ++ "\x7d"

/-- The items of an array, with `", "` between them. -/
def renderItems : List Json → String
  | [] => ""
  | [v] => render v
  | v :: w :: rest => render v ++ ", " ++ renderItems (w :: rest)

/-- The entries of an object, with `", "` between them. -/
def renderEntries : List (String × Json) → String
  | [] => ""
  | [(k, v)] => quote k ++ ": " ++ render v
  | (k, v) :: e :: rest => quote k ++ ": " ++ render v ++ ", " ++ renderEntries (e :: rest)

end

/-! ### Values over several lines -/

/-- A line break and the indentation of a level. -/
def lineBreak (level : Nat) : String := String.ofList ('\n' :: List.replicate (2 * level) ' ')

mutual

/-- A value at a level of indentation. -/
def renderAt (level : Nat) : Json → String
  | .null => "null"
  | .bool b => if b then "true" else "false"
  | .int n => Number.ofInt n
  | .float x => Number.Layout.document.render x
  | .string s => quoteAscii s
  | .array [] => "[]"
  | .array (v :: rest) =>
    "[" ++ lineBreak (level + 1) ++ renderItemsAt (level + 1) (v :: rest) ++ lineBreak level ++ "]"
  | .object [] => "\x7b\x7d"
  | .object (e :: rest) =>
    "\x7b" ++ lineBreak (level + 1) ++ renderEntriesAt (level + 1) (e :: rest) ++ lineBreak level
      ++ "\x7d"

/-- The items of an array, a line each. -/
def renderItemsAt (level : Nat) : List Json → String
  | [] => ""
  | [v] => renderAt level v
  | v :: w :: rest =>
    renderAt level v ++ "," ++ lineBreak level ++ renderItemsAt level (w :: rest)

/-- The entries of an object, a line each. -/
def renderEntriesAt (level : Nat) : List (String × Json) → String
  | [] => ""
  | [(k, v)] => quoteAscii k ++ ": " ++ renderAt level v
  | (k, v) :: e :: rest =>
    quoteAscii k ++ ": " ++ renderAt level v ++ "," ++ lineBreak level
      ++ renderEntriesAt level (e :: rest)

end

/-- A value over several lines. -/
def renderIndented (v : Json) : String := renderAt 0 v

end Json

end DeclGraph
