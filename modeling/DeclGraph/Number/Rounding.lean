/-!
# Rounding a quotient

`roundHalfEven n d` is the whole number nearest to `n / d`, a tie going to the even neighbour.
Numbers read from text, multiplied or written with fewer digits are all rounded by it.
`roundHalfEven_of_mul` says that a quotient that is whole is left alone.
-/

namespace DeclGraph

/-- The whole number nearest to `n / d`; of two equally near ones the even one. -/
def roundHalfEven (n d : Nat) : Nat :=
  let q := n / d
  let r := n % d
  if d < 2 * r ∨ (2 * r = d ∧ q % 2 = 1) then q + 1 else q

/-- A whole quotient rounds to itself. -/
theorem roundHalfEven_of_mul (q d : Nat) (h : 0 < d) : roundHalfEven (q * d) d = q := by
  have hr : q * d % d = 0 := Nat.mul_mod_left q d
  have hq : q * d / d = q := Nat.mul_div_cancel q h
  simp only [roundHalfEven, hr, hq]
  rw [if_neg]
  omega

/-- Rounding moves a quotient by half a unit at most. -/
theorem two_mul_roundHalfEven_le (n d : Nat) (h : 0 < d) :
    2 * (roundHalfEven n d * d) ≤ 2 * n + d := by
  have hdm := Nat.div_add_mod n d
  have hlt := Nat.mod_lt n h
  have hc : d * (n / d) = n / d * d := Nat.mul_comm _ _
  simp only [roundHalfEven]
  split
  · rw [Nat.add_mul]; omega
  · omega

end DeclGraph
