import DeclGraph.Number.Shortest

/-!
# Writing numbers

A `Number.Layout` says how the digits of a number are laid out: which exponents are written
positionally, how whole numbers end, how the exponent looks and how the special values are
spelled.  `Layout.render` writes a number under a layout.
-/

namespace DeclGraph

namespace Number

/-- The decimal digits of a natural number. -/
def digits (n : Nat) : String := String.ofList (Nat.toDigits 10 n)

/-- The decimal text of an integer. -/
def ofInt (n : Int) : String := if n < 0 then "-" ++ digits n.natAbs else digits n.natAbs

/-- How the digits of a number become text. -/
structure Layout where
  /-- Digits to keep; `none` keeps as few as read back as the same number. -/
  significant? : Option Nat
  /-- Numbers whose leading exponent is below this bound are written with an exponent. -/
  leastPositional : Int
  /-- Numbers whose leading exponent is at least this bound are written with an exponent. -/
  positionalBound : Int
  /-- What ends a whole number written positionally. -/
  wholeSuffix : String
  /-- Least number of digits in an exponent. -/
  exponentDigits : Nat
  /-- The text of the value that is not a number. -/
  nanText : String
  /-- The text of the positive infinity. -/
  infinityText : String

namespace Layout

/-- Zeros in front of `s` up to `width` characters. -/
def padZeros (width : Nat) (s : String) : String :=
  String.ofList (List.replicate (width - s.length) '0') ++ s

/-- The digits of a positive decimal under a layout. -/
def renderDecimal (layout : Layout) (d : Decimal) : String :=
  let ds := Nat.toDigits 10 d.coefficient
  let lead : Int := d.scale + (ds.length : Int) - 1
  if lead < layout.leastPositional ∨ layout.positionalBound ≤ lead then
    let mantissa := match ds with
      | [] => "0"
      | [c] => String.ofList [c]
      | c :: rest => String.ofList (c :: '.' :: rest)
    let sign := if lead < 0 then "-" else "+"
    mantissa ++ "e" ++ sign ++ padZeros layout.exponentDigits (digits lead.natAbs)
  else if 0 ≤ d.scale then
    String.ofList (ds ++ List.replicate d.scale.toNat '0') ++ layout.wholeSuffix
  else if 0 ≤ lead then
    let whole := lead.toNat + 1
    String.ofList (ds.take whole ++ '.' :: ds.drop whole)
  else
    "0." ++ String.ofList (List.replicate (-lead - 1).toNat '0' ++ ds)

/-- The text of a number under a layout. -/
def render (layout : Layout) : Binary64 → String
  | .nan => layout.nanText
  | .infinity neg => (if neg then "-" else "") ++ layout.infinityText
  | .finite neg m e =>
    let sign := if neg then "-" else ""
    if m = 0 then sign ++ "0" ++ layout.wholeSuffix
    else
      let d := match layout.significant? with
        | some k => Binary64.significant k m e
        | none => Binary64.shortest m e
      sign ++ layout.renderDecimal d

/-- Numbers shown as values: fewest digits, positional from `1e-4` below `1e16`, whole numbers
ending in `.0`. -/
def display : Layout := ⟨none, -4, 16, ".0", 2, "nan", "inf"⟩

/-- Numbers in documents: as `display`, with the words that documents use for special values. -/
def document : Layout := ⟨none, -4, 16, ".0", 2, "NaN", "Infinity"⟩

/-- Short numbers in messages: six significant digits, no zeros at the end. -/
def brief : Layout := ⟨some 6, -4, 6, "", 2, "nan", "inf"⟩

end Layout

end Number

end DeclGraph
