import DeclGraph.Text.Printable

/-!
# Quoted text

`quoted s` shows a text between quotation marks on one line.  Single marks are used unless the
text holds one and no double mark; the mark in use, backslashes and everything that is not
printable are escaped.
-/

namespace DeclGraph

namespace Quoted

/-- `n` in hexadecimal, with zeros in front up to `width` digits. -/
def hex (width n : Nat) : List Char :=
  let ds := Nat.toDigits 16 n
  List.replicate (width - ds.length) '0' ++ ds

/-- The quotation mark for a text. -/
def mark (cs : List Char) : Char := if cs.contains '\'' && !cs.contains '"' then '"' else '\''

/-- One character between quotation marks `q`. -/
def escape (q c : Char) : List Char :=
  if c = q ∨ c = '\\' then ['\\', c]
  else if c = '\t' then ['\\', 't']
  else if c = '\n' then ['\\', 'n']
  else if c = '\r' then ['\\', 'r']
  else if isPrintable c then [c]
  else if c.toNat < 0x100 then '\\' :: 'x' :: hex 2 c.toNat
  else if c.toNat < 0x10000 then '\\' :: 'u' :: hex 4 c.toNat
  else '\\' :: 'U' :: hex 8 c.toNat

end Quoted

/-- The text between quotation marks. -/
def quoted (s : String) : String :=
  let q := Quoted.mark s.toList
  String.ofList (q :: s.toList.flatMap (Quoted.escape q) ++ [q])

end DeclGraph
