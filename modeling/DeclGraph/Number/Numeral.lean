import DeclGraph.Number.Binary64
import DeclGraph.Text.Blank

/-!
# Reading numbers

`Numeral.int?` and `Numeral.float?` read the numbers that people type: blanks at both ends, a
sign, single underscores between digits, and the decimal digits of any script.  `Numeral.ofParts`
puts the digits in front of and behind a point together.
-/

namespace DeclGraph

namespace Numeral

/-- The code points of the digit zero in the scripts that have decimal digits; each is followed by
the other nine. -/
def zeros : List Nat :=
  [0x30, 0x660, 0x6F0, 0x7C0, 0x966, 0x9E6, 0xA66, 0xAE6, 0xB66, 0xBE6, 0xC66, 0xCE6, 0xD66, 0xDE6,
    0xE50, 0xED0, 0xF20, 0x1040, 0x1090, 0x17E0, 0x1810, 0x1946, 0x19D0, 0x1A80, 0x1A90, 0x1B50,
    0x1BB0, 0x1C40, 0x1C50, 0xA620, 0xA8D0, 0xA900, 0xA9D0, 0xA9F0, 0xAA50, 0xABF0, 0xFF10, 0x104A0,
    0x10D30, 0x11066, 0x110F0, 0x11136, 0x111D0, 0x112F0, 0x11450, 0x114D0, 0x11650, 0x116C0,
    0x11730, 0x118E0, 0x11950, 0x11C50, 0x11D50, 0x11DA0, 0x16A60, 0x16AC0, 0x16B50, 0x1D7CE,
    0x1D7D8, 0x1D7E2, 0x1D7EC, 0x1D7F6, 0x1E140, 0x1E2F0, 0x1E950, 0x1FBF0]

/-- The value of a decimal digit of any script. -/
def digit? (c : Char) : Option Nat :=
  (zeros.find? fun z => z ≤ c.toNat && c.toNat < z + 10).map (c.toNat - ·)

/-- The value of a row of digits, read behind `acc`. -/
def value (acc : Nat) (ds : List Nat) : Nat := ds.foldl (fun n d => 10 * n + d) acc

/-- Reads digits with single underscores between them; the flag says whether a digit stands right
before.  Answers with the digits and the rest. -/
def digitRun : Bool → List Char → List Nat × List Char
  | _, [] => ([], [])
  | afterDigit, c :: rest =>
    match digit? c with
    | some d =>
      let (ds, rest) := digitRun true rest
      (d :: ds, rest)
    | none =>
      if c = '_' && afterDigit then
        match rest with
        | d :: rest' =>
          match digit? d with
          | some v =>
            let (ds, rest) := digitRun true rest'
            (v :: ds, rest)
          | none => ([], c :: rest)
        | [] => ([], [c])
      else ([], c :: rest)

/-- Takes a sign off; `true` means negative. -/
def sign : List Char → Bool × List Char
  | '-' :: rest => (true, rest)
  | '+' :: rest => (false, rest)
  | cs => (false, cs)

/-- Whether a character may stand at the ends of a number without counting: a blank that is no
information separator. -/
def isPadding (c : Char) : Bool := isBlank c && !(0x1C ≤ c.toNat && c.toNat ≤ 0x1F)

/-- The text of a number without what does not count at its ends. -/
def trimmed (cs : List Char) : List Char :=
  ((cs.dropWhile isPadding).reverse.dropWhile isPadding).reverse

/-- The most digits that a whole number may have. -/
def digitLimit : Nat := 4300

/-- Reads a whole number. -/
def int? (s : String) : Option Int :=
  let (negative, cs) := sign (trimmed s.toList)
  match digitRun false cs with
  | ([], _) => none
  | (ds, []) =>
    if digitLimit < ds.length then none
    else some (if negative then -(value 0 ds : Nat) else (value 0 ds : Nat))
  | _ => none

/-- The number with the given digits in front of and behind the point, times a power of ten. -/
def ofParts (negative : Bool) (whole fraction : List Nat) (scale : Int) : Binary64 :=
  Binary64.ofDecimal negative (value (value 0 whole) fraction) (scale - fraction.length)

/-- Reads the exponent behind the digits of a number: nothing, or `e` and a whole number. -/
def exponent? : List Char → Option Int
  | [] => some 0
  | c :: rest =>
    if c = 'e' ∨ c = 'E' then
      let (negative, cs) := sign rest
      match digitRun false cs with
      | ([], _) => none
      | (ds, []) => some (if negative then -(value 0 ds : Nat) else (value 0 ds : Nat))
      | _ => none
    else none

/-- Reads a number with a point and an exponent, an infinity or `nan`. -/
def float? (s : String) : Option Binary64 :=
  let (negative, cs) := sign (trimmed s.toList)
  let word := String.ofList (cs.map Char.toLower)
  if word = "inf" ∨ word = "infinity" then some (.infinity negative)
  else if word = "nan" then some .nan
  else
    let (whole, rest) := digitRun false cs
    let (fraction, rest) := match rest with
      | '.' :: rest => digitRun false rest
      | rest => ([], rest)
    if whole.isEmpty && fraction.isEmpty then none
    else (exponent? rest).map (ofParts negative whole fraction)

end Numeral

end DeclGraph
