import SpendScript.Text.Digit

/-! # Decimal numbers

Integers are written in decimal, plain or with a comma between groups of three digits, and read from decimal
digits of any script. Conversions in either direction handle numbers of at most `maxDigits` digits. -/

namespace SpendScript.Text

/-- The most decimal digits that a conversion between numbers and text handles. -/
def maxDigits : Nat := 4300

/-- Whether a number has few enough decimal digits to be written. -/
def Writable (n : Int) : Prop := n.natAbs < 10 ^ maxDigits

instance (n : Int) : Decidable (Writable n) := inferInstanceAs (Decidable (_ < _))

/-- Small numbers can be written. -/
theorem writable_of_natAbs_lt {n : Int} {k : Nat} (hk : k ≤ maxDigits) (h : n.natAbs < 10 ^ k) : Writable n :=
  Nat.lt_of_lt_of_le h (Nat.pow_le_pow_right (by decide) hk)

/-- The decimal digits of a natural number. -/
def natText (n : Nat) : Text := (Nat.toDigits 10 n).map CodePoint.ofChar

def signText (n : Int) : Text := if n < 0 then ['-'] else []

/-- An integer in decimal. -/
def intText (n : Int) : Text := signText n ++ natText n.natAbs

/-- Puts a comma before every third digit from the end. -/
def groupThousands (digits : Text) : Text :=
  match digits with
  | [] => []
  | d :: ds => d :: (if ds.length % 3 = 0 ∧ ds ≠ [] then ',' :: groupThousands ds else groupThousands ds)

/-- An integer in decimal with commas between the thousands. -/
def groupedText (n : Int) : Text := signText n ++ groupThousands (natText n.natAbs)

/-- The number that decimal digits stand for. Nothing if a code point is no decimal digit, or if there are
    none or too many. -/
def readNat? (digits : Text) : Option Nat :=
  if digits = [] ∨ maxDigits < digits.length then none
  else (digits.mapM decimalValue?).map fun values => values.foldl (fun n d => 10 * n + d) 0

end SpendScript.Text
