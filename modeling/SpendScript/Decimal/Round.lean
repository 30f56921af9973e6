import SpendScript.Power

/-! # Rounding

A quotient is rounded to the nearest natural number; a half goes to the even neighbour. -/

namespace SpendScript.Decimal

/-- The natural number nearest to `n / d`, and of two that are equally near the even one. -/
def roundDiv (n d : Nat) : Nat :=
  if 2 * (n % d) < d ∨ (2 * (n % d) = d ∧ n / d % 2 = 0) then n / d else n / d + 1

end SpendScript.Decimal
