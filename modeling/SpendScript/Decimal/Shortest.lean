import SpendScript.Decimal.Binary64

/-! # The fewest digits that read back

A finite number is nearest to every decimal in an interval around it. Of these decimals one with the fewest digits
is taken, and of several such ones the nearest. -/

namespace SpendScript.Decimal

/-- A decimal number, `digits * 10 ^ exponent`. -/
structure Scaled where
  digits : Nat
  exponent : Int
  deriving DecidableEq, Repr

namespace Shortest

/-- Quarters of the last binary place from which decimals are read as `mantissa * 2 ^ exponent`. The gap below a
    power of two is half as wide. -/
def low (mantissa : Nat) (exponent : Int) : Nat :=
  if 2 * mantissa = Binary64.mantissaEnd ∧ Binary64.minExponent < exponent then 4 * mantissa - 1
  else 4 * mantissa - 2

/-- Quarters of the last binary place up to which decimals are read as `mantissa * 2 ^ exponent`. -/
def high (mantissa : Nat) : Nat := 4 * mantissa + 2

/-- The factor and the divisor that turn quarters of the last binary place into units of `10 ^ k`. -/
def factor (exponent k : Int) : Nat := 2 ^ (exponent - 2).toNat * 10 ^ (-k).toNat

def divisor (exponent k : Int) : Nat := 2 ^ (2 - exponent).toNat * 10 ^ k.toNat

/-- The least multiple of `10 ^ k`, divided by it, that is read as `mantissa * 2 ^ exponent`. The ends of the
    interval belong to an even mantissa. -/
def first (mantissa : Nat) (exponent k : Int) : Nat :=
  let n := low mantissa exponent * factor exponent k
  let d := divisor exponent k
  if mantissa % 2 = 0 then (n + d - 1) / d else n / d + 1

/-- The greatest multiple of `10 ^ k`, divided by it, that is read as `mantissa * 2 ^ exponent`. -/
def last (mantissa : Nat) (exponent k : Int) : Nat :=
  let n := high mantissa * factor exponent k
  let d := divisor exponent k
  if mantissa % 2 = 0 then n / d else (n + d - 1) / d - 1

/-- The multiple of `10 ^ k` that is nearest to `mantissa * 2 ^ exponent` among those that are read as it, divided
    by `10 ^ k`. -/
def multiple? (mantissa : Nat) (exponent k : Int) : Option Nat :=
  let nearest := roundDiv (4 * mantissa * factor exponent k) (divisor exponent k)
  if first mantissa exponent k ≤ last mantissa exponent k then
    some (max (first mantissa exponent k) (min (last mantissa exponent k) nearest))
  else none

/-- The exponents that the last digit of a number can have, greatest first. -/
def exponents : List Int := (List.range 633).map fun (n : Nat) => 308 - (n : Int)

end Shortest

/-- The shortest decimal that is read as `mantissa * 2 ^ exponent`: a multiple of the greatest power of ten. -/
def shortest (mantissa : Nat) (exponent : Int) : Scaled :=
  if mantissa = 0 then ⟨0, 0⟩
  else
    (Shortest.exponents.findSome? fun k => (Shortest.multiple? mantissa exponent k).map fun n => ⟨n, k⟩).getD ⟨0, 0⟩

end SpendScript.Decimal
