import SpendScript.Decimal.Round

/-! # Binary floating point

Numbers with 53 binary digits and an exponent of bounded size, two infinities, and the value that is no number.
A decimal fraction is read as the nearest of them. -/

namespace SpendScript.Decimal

/-- A value of the format; a finite one is `mantissa * 2 ^ exponent` with a sign. -/
inductive Binary64
  | nan
  | infinite (negative : Bool)
  | finite (negative : Bool) (mantissa : Nat) (exponent : Int)
  deriving DecidableEq, Repr

namespace Binary64

/-- Mantissas lie below this bound. -/
def mantissaEnd : Nat := 2 ^ 53

/-- The exponent of the least numbers. Only they have mantissas in the lower half. -/
def minExponent : Int := -1074

/-- The exponent of the greatest numbers. -/
def maxExponent : Int := 971

def zero (negative : Bool) : Binary64 := finite negative 0 minExponent

/-- The greatest `e` with `2 ^ e ≤ num / den`, both positive. -/
def floorLog2 (num den : Nat) : Int :=
  let e := (num.log2 : Int) - den.log2
  if den * 2 ^ e.toNat ≤ num * 2 ^ (-e).toNat then e else e - 1

/-- The value of a rounded mantissa. Rounding up may have made it one place too long. -/
def pack (negative : Bool) (mantissa : Nat) (exponent : Int) : Binary64 :=
  let (m, e) := if mantissa = mantissaEnd then (mantissa / 2, exponent + 1) else (mantissa, exponent)
  if maxExponent < e then infinite negative else finite negative m e

/-- The value nearest to a fraction. -/
def ofFraction (negative : Bool) (num den : Nat) : Binary64 :=
  if num = 0 then zero negative
  else
    let e := max minExponent (floorLog2 num den - 52)
    pack negative (roundDiv (num * 2 ^ (-e).toNat) (den * 2 ^ e.toNat)) e

/-- A power of ten that is beyond the greatest numbers, and its inverse below the least ones. -/
def decimalBound : Int := 400

/-- The value nearest to `digits * 10 ^ exponent`. -/
def ofDecimal (negative : Bool) (digits : Nat) (exponent : Int) : Binary64 :=
  let point := (Nat.toDigits 10 digits).length + exponent
  if digits = 0 ∨ point < -decimalBound then zero negative
  else if decimalBound < point then infinite negative
  else ofFraction negative (digits * 10 ^ exponent.toNat) (10 ^ (-exponent).toNat)

end Binary64

end SpendScript.Decimal
