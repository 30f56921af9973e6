import SpendScript.Bytes.Sized

/-! # Script numbers

A stack item is read as a number in little-endian sign-magnitude form: the top bit of its last byte is the sign,
the other bits are the magnitude. Zero is the empty item. An item is minimal if no shorter one has its value.
An item is also read as a truth value: false if it is zero, in any width and with either sign. -/

namespace SpendScript.Number

/-- The greatest number of four bytes; numbers range from its negative to it. -/
def int32Max : Int := 0x7fffffff

/-- The value of the sign bit of an item of `size` bytes. -/
def signBit (size : Nat) : Nat := 256 ^ size / 2

/-- The number that an item stands for. -/
def decode (item : Bytes) : Int :=
  let value := item.toNatLE
  let sign := signBit item.length
  if sign ≤ value then -((value - sign : Nat) : Int) else value

/-- How many bytes a number needs: its magnitude and one bit for the sign. -/
def width (n : Int) : Nat := if n = 0 then 0 else (Bytes.bitLength n.natAbs + 8) / 8

/-- The magnitude and sign of a number in `size` bytes, as one number. -/
def signed (size : Nat) (n : Int) : Nat := if n < 0 then n.natAbs + signBit size else n.natAbs

/-- A number in `size` bytes, which must be at least its width. -/
def encodeIn (size : Nat) (n : Int) : Bytes := Bytes.ofNatLE size (signed size n)

/-- The shortest item that stands for a number. -/
def encode (n : Int) : Bytes := encodeIn (width n) n

/-- The item of exactly `size` bytes that stands for a number. The sign of a negative one is a bit of its own. -/
def encodeSized (n size : Int) : Except Fault Bytes := do
  if size < width n then throw (Fault.numberWidth size).reported
  if n < 0 then Capacity.checkShift (8 * (size - 1))
  Bytes.ofIntLE (signed size.toNat n) (some size)

/-- The shortest item of a number. The number gives its size, so all that is checked is that it fits. -/
def item (n : Int) : Except Fault Bytes := do
  Bytes.checkFit (signed (width n) n) (width n)
  return encode n

/-- The number that an item stands for, if it is one of four bytes. -/
def decodeInt32? (item : Bytes) : Option Int :=
  let n := decode item
  if -int32Max ≤ n ∧ n ≤ int32Max then some n else none

/-- Whether an item is the shortest one of its value. -/
def isMinimal (item : Bytes) : Bool := encode (decode item) == item

/-- The truth value of an item: whether it has a bit other than the sign. -/
def isTrue : Bytes → Bool
  | [] => false
  | [b] => b &&& 0x7f != 0
  | b :: bs => b != 0 || isTrue bs

/-- The item of a truth value. -/
def ofBool (b : Bool) : Bytes := if b then [1] else []

@[simp] theorem length_encodeIn (size : Nat) (n : Int) : (encodeIn size n).length = size := by
  simp [encodeIn]

theorem length_encode (n : Int) : (encode n).length = width n := by
  simp [encode]

theorem isTrue_ofBool (b : Bool) : isTrue (ofBool b) = b := by
  cases b <;> rfl

end SpendScript.Number
