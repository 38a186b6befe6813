import DeclGraph.Number.Rounding

/-!
# Binary floating-point numbers

`Binary64` holds the numbers of the 64-bit binary format as exact data: a finite number is
`±mantissa · 2 ^ exponent` with a mantissa below `2 ^ 53` and an exponent of at least `-1074`.
Every operation is done on natural numbers and rounded once, to nearest with ties to even, by
`Binary64.ofRatio`.
-/

namespace DeclGraph

/-- A number of the 64-bit binary floating-point format. -/
inductive Binary64
  /-- The value that is not a number. -/
  | nan
  /-- An infinity, with its sign. -/
  | infinity (negative : Bool)
  /-- The number `mantissa · 2 ^ exponent`, with its sign; zero has a sign too. -/
  | finite (negative : Bool) (mantissa : Nat) (exponent : Int)
deriving DecidableEq, Repr, Inhabited

namespace Binary64

/-- The exponent of the smallest positive number. -/
def minExponent : Int := -1074

/-- The exponent of the largest finite numbers. -/
def maxExponent : Int := 971

/-- Every mantissa is below this bound. -/
def mantissaBound : Nat := Nat.pow 2 53

/-- Zero, with its sign. -/
def zero (negative : Bool) : Binary64 := .finite negative 0 minExponent

/-- The quotient `num / den` counted in units of `2 ^ exponent`, as a numerator and a
denominator. -/
def inUnits (num den : Nat) (exponent : Int) : Nat × Nat :=
  if 0 ≤ exponent then (num, den * Nat.pow 2 exponent.toNat)
  else (num * Nat.pow 2 (-exponent).toNat, den)

/-- The exponent at which `num / den`, cut to a whole number of units, has 53 binary digits, or
the least exponent of the format where that is larger. -/
def exponentOf (num den : Nat) : Int :=
  let guess : Int := (num.log2 : Int) - (den.log2 : Int) - 53
  let (n, d) := inUnits num den guess
  max minExponent (if n / d < mantissaBound then guess else guess + 1)

/-- The number of the format nearest to `±num / den`, ties to even. -/
def ofRatio (negative : Bool) (num den : Nat) : Binary64 :=
  if num = 0 then zero negative
  else
    let e := exponentOf num den
    let (n, d) := inUnits num den e
    let m := roundHalfEven n d
    let (m, e) := if m = mantissaBound then (m / 2, e + 1) else (m, e)
    if maxExponent < e then .infinity negative else .finite negative m e

/-- The number of the format nearest to `±digits · 10 ^ scale`.  Scales far outside the range of
the format are settled without computing the power of ten. -/
def ofDecimal (negative : Bool) (digits : Nat) (scale : Int) : Binary64 :=
  if digits = 0 then zero negative
  else
    let top : Int := (digits.log2 : Int) / 4 + scale
    if 400 < top then .infinity negative
    else if (digits.log2 : Int) + scale < -400 then zero negative
    else if 0 ≤ scale then ofRatio negative (digits * Nat.pow 10 scale.toNat) 1
    else ofRatio negative digits (Nat.pow 10 (-scale).toNat)

/-- The number of the format nearest to a whole number. -/
def ofInt (n : Int) : Binary64 := ofRatio (decide (n < 0)) n.natAbs 1

/-- A finite number as sign, numerator and denominator. -/
def toRatio? : Binary64 → Option (Bool × Nat × Nat)
  | .finite neg m e =>
    if 0 ≤ e then some (neg, m * Nat.pow 2 e.toNat, 1) else some (neg, m, Nat.pow 2 (-e).toNat)
  | _ => none

/-- `x` times a whole number, rounded to the format. -/
def mulNat (x : Binary64) (k : Nat) : Binary64 :=
  match x with
  | .finite neg _ _ =>
    match x.toRatio? with
    | some (_, n, d) => ofRatio neg (n * k) d
    | none => .nan
  | .infinity neg => if k = 0 then .nan else .infinity neg
  | .nan => .nan

/-- The whole number nearest to a finite number, ties to even. -/
def round? (x : Binary64) : Option Int :=
  x.toRatio?.map fun (neg, n, d) =>
    let q : Int := roundHalfEven n d
    if neg then -q else q

/-- The whole number that a finite number is, if it is one. -/
def toInt? (x : Binary64) : Option Int :=
  match x.toRatio? with
  | some (neg, n, d) =>
    if n % d = 0 then some (if neg then -((n / d : Nat) : Int) else ((n / d : Nat) : Int)) else none
  | none => none

/-- Whether `x` is a zero of either sign. -/
def isZero : Binary64 → Bool
  | .finite _ m _ => m == 0
  | _ => false

/-- The order of numbers; `nan` is below nothing, and both zeros are equal. -/
def lt (x y : Binary64) : Bool :=
  match x, y with
  | .nan, _ => false
  | _, .nan => false
  | .infinity s, .infinity t => s && !t
  | .infinity s, .finite .. => s
  | .finite .., .infinity t => !t
  | .finite s m e, .finite t n f =>
    let low := min e f
    let a : Int := (m * Nat.pow 2 (e - low).toNat : Nat)
    let b : Int := (n * Nat.pow 2 (f - low).toNat : Nat)
    decide ((if s then -a else a) < (if t then -b else b))

/-- Equality of numbers: `nan` differs from itself, and both zeros are equal. -/
def eq (x y : Binary64) : Bool :=
  match x, y with
  | .nan, _ => false
  | _, .nan => false
  | x, y => !lt x y && !lt y x

/-- Whether `x` is zero or negative. -/
def nonPositive (x : Binary64) : Bool := x.lt (zero false) || x.eq (zero false)

end Binary64

end DeclGraph
