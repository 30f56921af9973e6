import SpendScript.Decimal.Shortest
import SpendScript.Text.Decimal

/-! # Layout of decimal numbers

A number is written with its point in place, or with one digit before the point and an exponent. Which of the two,
and how wide the exponent is, is up to the layout. -/

namespace SpendScript.Decimal

/-- How decimal numbers are laid out. Numbers from `10 ^ pointFrom` and below `10 ^ pointBelow` have their point in
    place, the others an exponent of at least `exponentWidth` digits. -/
structure Layout where
  pointFrom : Int
  pointBelow : Int
  exponentWidth : Nat

namespace Layout

def zeros (count : Nat) : Text := List.replicate count '0'

/-- Digits with a point after the first `point` of them, and zeros where digits are missing. At least one digit
    stands on either side. -/
def pointed (digits : Text) (point : Int) : Text :=
  if point ≤ 0 then "0." ++ zeros (-point).toNat ++ digits
  else if digits.length ≤ point then digits ++ zeros (point - digits.length).toNat ++ ".0"
  else digits.take point.toNat ++ "." ++ digits.drop point.toNat

/-- An exponent with its mark and sign. -/
def exponentText (width : Nat) (exponent : Int) : Text :=
  let digits := Text.natText exponent.natAbs
  (if exponent < 0 then Text.ofString "e-" else "e+") ++ zeros (width - digits.length) ++ digits

/-- Digits with a point after the first one, and an exponent. No point follows a single digit. -/
def scientific (width : Nat) (digits : Text) (exponent : Int) : Text :=
  match digits with
  | [] => []
  | [d] => d :: exponentText width exponent
  | d :: ds => d :: "." ++ ds ++ exponentText width exponent

/-- A decimal number as text. -/
def write (l : Layout) (negative : Bool) (n : Scaled) : Text :=
  let digits := Text.natText n.digits
  let point := digits.length + n.exponent
  let sign : Text := if negative then "-" else []
  if l.pointFrom < point ∧ point ≤ l.pointBelow then sign ++ pointed digits point
  else sign ++ scientific l.exponentWidth digits (point - 1)

end Layout

end SpendScript.Decimal
