import SpendScript.Fault

/-! # DER encodings of signatures

A signature is a pair of numbers `r` and `s` in DER: a sequence of two integers. It is written in exactly one
way, strictly. It is read in two: strictly, where the lengths must agree and the integers be minimal, and
laxly, where lengths may be in long form, integers have leading zeros, the length of the sequence is ignored and
bytes may follow. -/

namespace SpendScript.Der

/-- The order of the curve's group. -/
def curveOrder : Nat := 0xfffffffffffffffffffffffffffffffebaaedce6af48a03bbfd25e8cd0364141

/-- The greatest low `s`. -/
def halfOrder : Nat := curveOrder / 2

/-! ### Writing -/

/-- The content of an integer: big-endian, in the fewest bytes that leave the top bit clear. -/
def content (n : Nat) : Bytes := Bytes.ofNatBE (Bytes.bitLength n / 8 + 1) n

/-- An integer with its tag and its length. -/
def integer (n : Nat) : Bytes := 0x02 :: UInt8.ofNat (content n).length :: content n

/-- The sequence of two integers. -/
def sequence (r s : Nat) : Bytes :=
  let body := integer r ++ integer s
  0x30 :: UInt8.ofNat body.length :: body

/-- The encoding of a signature whose numbers lie below the order. -/
def encode (r s : Int) : Except Fault Bytes :=
  if (0 ≤ r ∧ r < curveOrder) ∧ (0 ≤ s ∧ s < curveOrder) then .ok (sequence r.toNat s.toNat)
  else .error .signatureRange

/-! ### Strict reading -/

/-- Whether bytes are the content of a strict integer: not empty, not negative, without a needless zero. -/
def isStrictContent : Bytes → Bool
  | [] => false
  | [a] => a < 0x80
  | a :: b :: _ => a < 0x80 && !(a == 0 && b < 0x80)

/-- The contents of the two integers of a strict signature and the byte after them. -/
structure Strict where
  r : Bytes
  s : Bytes
  last : UInt8
  deriving DecidableEq, Repr

/-- Reads a strict signature that is followed by one byte, of at most 73 bytes together. -/
def strict? (sig : Bytes) : Option Strict :=
  match sig with
  | tag :: len :: rTag :: rLen :: rest =>
    match rest.drop rLen.toNat with
    | sTag :: sLen :: rest' =>
      let r := rest.take rLen.toNat
      let s := rest'.take sLen.toNat
      match rest'.drop sLen.toNat with
      | [last] =>
        if tag = 0x30 ∧ len.toNat + 3 = sig.length ∧ sig.length ≤ 73 ∧ rTag = 0x02 ∧ sTag = 0x02
            ∧ isStrictContent r = true ∧ isStrictContent s = true then some ⟨r, s, last⟩
        else none
      | _ => none
    | _ => none
  | _ => none

/-- How a signature is encoded. -/
inductive Encoding
  | loose | strictHigh | strictLow
  deriving DecidableEq, Repr

/-- The flags of an encoding: 1 for a strict one, 2 for a low `s`. -/
def Encoding.flags : Encoding → Nat
  | loose => 0
  | strictHigh => 1
  | strictLow => 3

/-- How a signature with its last byte is encoded. -/
def analyze (sig : Bytes) : Encoding :=
  match strict? sig with
  | none => .loose
  | some f => if Bytes.toNatBE f.s ≤ halfOrder then .strictLow else .strictHigh

/-! ### Strict reading by offsets

The same reading with every byte taken from its offset. Offsets are computed from lengths that stand in the
signature itself; a byte that is not there is a fault. -/

/-- The byte at an offset, which must lie within the bytes. -/
def byteAt (bytes : Bytes) (offset : Nat) : Except Fault UInt8 :=
  match bytes[offset]? with
  | some b => .ok b
  | none => .error .indexRange

/-- Whether the tag, length and content of an integer are strict, where the length is known to be that of the
    content. -/
def isStrictField (field : Bytes) : Except Fault Bool := do
  if (← byteAt field 0) ≠ 0x02 then return false
  else if (← byteAt field 1) = 0 then return false
  else
    let content := field.drop 2
    let first ← byteAt content 0
    if 0x80 ≤ first then return false
    else if 1 < content.length ∧ first = 0 then return 0x80 ≤ (← byteAt content 1)
    else return true

/-- How a signature whose integers are `r` and `s`, as fields, is encoded. -/
def inspectFields (r s : Bytes) : Except Fault Encoding := do
  if ¬ (← isStrictField r) then return .loose
  else if ¬ (← isStrictField s) then return .loose
  else return if Bytes.toNatBE (s.drop 2) ≤ halfOrder then .strictLow else .strictHigh

/-- How a signature with its last byte is encoded. -/
def inspect (sig : Bytes) : Except Fault Encoding := do
  let size := sig.length
  if ¬ (9 ≤ size ∧ size ≤ 73) then return .loose
  else if (← byteAt sig 0) ≠ 0x30 then return .loose
  else if (← byteAt sig 1).toNat ≠ size - 3 then return .loose
  else
    let rLen := (← byteAt sig 3).toNat
    if size ≤ 5 + rLen then return .loose
    else
      let sLen := (← byteAt sig (5 + rLen)).toNat
      if 7 + rLen + sLen ≠ size then return .loose
      else inspectFields ((sig.take (4 + rLen)).drop 2) ((sig.take (size - 1)).drop (4 + rLen))

/-! ### Lax reading -/

/-- The first `count` bytes and the rest, if there are as many. -/
def split? (count : Nat) (bytes : Bytes) : Option (Bytes × Bytes) :=
  let first := bytes.take count
  if first.length = count then some (first, bytes.drop count) else none

/-- Reads a length: a byte below 0x80, or the number of bytes that hold it and those bytes. -/
def laxLength? : Bytes → Option (Nat × Bytes)
  | [] => none
  | b :: rest =>
    if b < 0x80 then some (b.toNat, rest)
    else (split? (b.toNat - 0x80) rest).map fun (field, rest) => (Bytes.toNatBE field, rest)

def laxTag? (tag : UInt8) : Bytes → Option Bytes
  | [] => none
  | b :: rest => if b = tag then some rest else none

def laxInteger? (bytes : Bytes) : Option (Nat × Bytes) := do
  let rest ← laxTag? 0x02 bytes
  let (size, rest) ← laxLength? rest
  let (field, rest) ← split? size rest
  return (Bytes.toNatBE field, rest)

/-- The two numbers of a sequence, whatever its length says. -/
def laxNumbers? (bytes : Bytes) : Option (Nat × Nat) := do
  let rest ← laxTag? 0x30 bytes
  let (_, rest) ← laxLength? rest
  let (r, rest) ← laxInteger? rest
  let (s, _) ← laxInteger? rest
  return (r, s)

/-- The numbers of a laxly encoded signature, both zero if one is not below the order. -/
def decodeLax (bytes : Bytes) : Except Fault (Nat × Nat) :=
  match laxNumbers? bytes with
  | none => .error .laxDer
  | some (r, s) => .ok (if r < curveOrder ∧ s < curveOrder then (r, s) else (0, 0))

/-- As `decodeLax`, with a high `s` replaced by its complement. -/
def decodeLaxLow (bytes : Bytes) : Except Fault (Nat × Nat) :=
  (decodeLax bytes).map fun (r, s) => (r, if halfOrder < s then curveOrder - s else s)

end SpendScript.Der
