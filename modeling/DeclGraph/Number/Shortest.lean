import DeclGraph.Number.Binary64

/-!
# The digits of a number

`Binary64.shortest m e` gives the fewest decimal digits that read back as `m · 2 ^ e`, and of
those the nearest to it.  `Binary64.significant k m e` gives the number rounded to `k` significant
digits.  Both answer with a `Decimal`, a coefficient and a power of ten.
-/

namespace DeclGraph

/-- The number `coefficient · 10 ^ scale`. -/
structure Decimal where
  /-- The digits, as a whole number. -/
  coefficient : Nat
  /-- The power of ten that the digits are counted in. -/
  scale : Int
deriving DecidableEq, Repr

namespace Decimal

/-- Strips zeros from the end of the coefficient, at most `fuel` of them. -/
def stripZeros : Nat → Decimal → Decimal
  | 0, d => d
  | fuel + 1, d =>
    if d.coefficient ≠ 0 ∧ d.coefficient % 10 = 0 then
      stripZeros fuel ⟨d.coefficient / 10, d.scale + 1⟩
    else d

/-- The same number with no zero at the end of its coefficient. -/
def normalize (d : Decimal) : Decimal := stripZeros d.coefficient.log2 d

end Decimal

namespace Binary64

/-- The largest `t ≤ fuel + from` ... with `10 ^ t ≤ num / den`, counted upwards. -/
private def countUp (num den : Nat) : Nat → Nat → Nat
  | 0, t => t
  | fuel + 1, t => if den * Nat.pow 10 (t + 1) ≤ num then countUp num den fuel (t + 1) else t

/-- The least `t` with `den ≤ num · 10 ^ t`, counted upwards. -/
private def countDown (num den : Nat) : Nat → Nat → Nat
  | 0, t => t
  | fuel + 1, t => if den ≤ num * Nat.pow 10 t then t else countDown num den fuel (t + 1)

/-- The exponent `x` with `10 ^ x ≤ num / den < 10 ^ (x + 1)`. -/
def leadingExponent (num den : Nat) : Int :=
  if den ≤ num then (countUp num den (num.log2 + 1) 0 : Nat)
  else -((countDown num den (den.log2 + 1) 0 : Nat) : Int)

/-- The quotient `num / den` counted in units of `10 ^ scale`, as a numerator and a
denominator. -/
def inPowersOfTen (num den : Nat) (scale : Int) : Nat × Nat :=
  if 0 ≤ scale then (num, den * Nat.pow 10 scale.toNat) else (num * Nat.pow 10 (-scale).toNat, den)

/-- The quarter units below and above a number between which every real rounds to it.  Below a
power of two the gap is half as wide, the least exponent apart. -/
def roundingInterval (m : Nat) (e : Int) : Nat × Nat :=
  let below := if m * 2 = mantissaBound ∧ minExponent < e then 1 else 2
  (4 * m - below, 4 * m + 2)

/-- The neighbours of `m · 2 ^ e` on the grid of multiples of `10 ^ scale` that read back as it:
the nearer one, or the even one of two equally near. -/
def onGrid? (m : Nat) (e : Int) (scale : Int) : Option Nat :=
  let quarter := e - 2
  let (num, den) := if 0 ≤ quarter then (Nat.pow 2 quarter.toNat, 1)
    else (1, Nat.pow 2 (-quarter).toNat)
  let (un, ud) := inPowersOfTen num den scale
  let (low, high) := roundingInterval m e
  let q := 4 * m * un / ud
  let reads (c : Nat) : Bool :=
    if m % 2 = 0 then low * un ≤ c * ud && c * ud ≤ high * un
    else low * un < c * ud && c * ud < high * un
  match reads q, reads (q + 1) with
  | true, true => some (roundHalfEven (4 * m * un) ud)
  | true, false => some q
  | false, true => some (q + 1)
  | false, false => none

/-- Tries grids of `count`, `count + 1`, … digits below the leading exponent. -/
private def firstGrid (m : Nat) (e : Int) (lead : Int) : Nat → Nat → Decimal
  | 0, _ => ⟨m, 0⟩
  | fuel + 1, count =>
    let scale := lead - (count : Int) + 1
    match onGrid? m e scale with
    | some c => ⟨c, scale⟩
    | none => firstGrid m e lead fuel (count + 1)

/-- The fewest decimal digits that read back as the positive number `m · 2 ^ e`, and of those the
nearest to it.  Seventeen digits always suffice. -/
def shortest (m : Nat) (e : Int) : Decimal :=
  let (num, den) := inUnits m 1 (-e)
  (firstGrid m e (leadingExponent num den) 17 1).normalize

/-- The positive number `m · 2 ^ e` rounded to `digits` significant digits. -/
def significant (digits : Nat) (m : Nat) (e : Int) : Decimal :=
  let (num, den) := inUnits m 1 (-e)
  let scale := leadingExponent num den - (digits : Int) + 1
  let (n, d) := inPowersOfTen num den scale
  Decimal.normalize ⟨roundHalfEven n d, scale⟩

end Binary64

end DeclGraph
