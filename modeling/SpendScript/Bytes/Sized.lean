import SpendScript.Capacity

/-! # Integers in a given number of bytes

A natural number is written in as many bytes as asked for, or in as few as it needs. -/

namespace SpendScript.Bytes

/-- Checks that a number is not negative and fits a number of bytes. -/
def checkFit (n size : Int) : Except Fault Unit := if n < 0 ∨ 8 * size < bitLength n.toNat then .error .intRange else .ok ()

/-- The number of bytes to write a number in. A number that is negative or does not fit has none, nor has a size
    that bytes cannot have. -/
def sizeFor (n : Int) (size : Option Int) : Except Fault Nat :=
  match size with
  | none => if n < 0 then .error .intRange else .ok (width n.toNat)
  | some size => do
    Capacity.checkBytes size
    if size < 0 then throw .negativeWidth
    checkFit n size
    return size.toNat

/-- A number with its most significant byte first. -/
def ofIntBE (n : Int) (size : Option Int) : Except Fault Bytes :=
  (sizeFor n size).map fun width => ofNatBE width n.toNat

/-- A number with its least significant byte first. -/
def ofIntLE (n : Int) (size : Option Int) : Except Fault Bytes :=
  (sizeFor n size).map fun width => ofNatLE width n.toNat

end SpendScript.Bytes
