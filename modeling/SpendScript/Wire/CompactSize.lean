import SpendScript.Wire.Word

/-! # CompactSize

Counts and lengths are written in one, three, five or nine bytes: a small number as its own byte, a larger one
after a byte that tells its width. A list is written as its count followed by its elements, a byte string as
its length followed by its bytes. -/

namespace SpendScript.Wire.CompactSize

/-- The shortest form of a number below 2^64. -/
def encode (n : Nat) : Bytes :=
  if n < 0xfd then [UInt8.ofNat n]
  else if n < 2 ^ 16 then 0xfd :: Bytes.ofNatLE 2 n
  else if n < 2 ^ 32 then 0xfe :: Bytes.ofNatLE 4 n
  else 0xff :: Bytes.ofNatLE 8 n

/-- The shortest form of a number from 0 to 2^64 - 1. -/
def write (n : Int) : Except Fault Bytes :=
  if 0 ≤ n ∧ n < 2 ^ 64 then .ok (encode n.toNat) else .error (Fault.compactSizeRange n).reported

/-- The word that follows a first byte, if one does. -/
def wideForm? (first : Int) : Option Word :=
  if first = 0xfd then some .uint16
  else if first = 0xfe then some .uint32
  else if first = 0xff then some .uint64
  else none

/-- Reads a number in any of its forms. -/
def read : Reader Nat := do
  let first ← Word.byte.read
  match wideForm? first with
  | none => return first.toNat
  | some wide => return (← wide.read).toNat

/-- A byte string after its length. -/
def writeBytes (data : Bytes) : Except Fault Bytes := return (← write data.length) ++ data

def readBytes : Reader Bytes := do takeExact (← read)

/-- A list after its count. -/
def writeList {α : Type} (one : α → Except Fault Bytes) (items : List α) : Except Fault Bytes := do
  let count ← write items.length
  let parts ← items.mapM one
  return count ++ parts.flatten

def readList {α : Type} (one : Reader α) : Reader (List α) := do many one (← read)

end SpendScript.Wire.CompactSize
