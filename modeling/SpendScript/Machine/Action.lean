import SpendScript.Digest
import SpendScript.Script.Operation

/-! # What opcodes do

Each opcode that is executed, and each one from `OP_IF` to `OP_ENDIF` also where it is not, stands for an
action. -/

namespace SpendScript

/-- The operations on numbers. -/
inductive Numeric
  | add1 | sub1 | negate | abs | not | nonZero
  | add | sub | boolAnd | boolOr | equal | notEqual | less | greater | lessEqual | greaterEqual | min | max
  | within
  deriving DecidableEq, Repr

namespace Numeric

/-- How many operands an operation takes. -/
def arity : Numeric → Nat
  | add1 | sub1 | negate | abs | not | nonZero => 1
  | within => 3
  | _ => 2

def ofBool (b : Bool) : Int := if b then 1 else 0

/-- The result of an operation on its operands, the deepest first. There must be as many as it takes. -/
def apply : Numeric → List Int → Except Fault Int
  | add1, [a] => .ok (a + 1)
  | sub1, [a] => .ok (a - 1)
  | negate, [a] => .ok (-a)
  | abs, [a] => .ok a.natAbs
  | not, [a] => .ok (ofBool (a == 0))
  | nonZero, [a] => .ok (ofBool (a != 0))
  | add, [a, b] => .ok (a + b)
  | sub, [a, b] => .ok (a - b)
  | boolAnd, [a, b] => .ok (ofBool (a != 0 && b != 0))
  | boolOr, [a, b] => .ok (ofBool (a != 0 || b != 0))
  | equal, [a, b] => .ok (ofBool (a == b))
  | notEqual, [a, b] => .ok (ofBool (a != b))
  | less, [a, b] => .ok (ofBool (a < b))
  | greater, [a, b] => .ok (ofBool (b < a))
  | lessEqual, [a, b] => .ok (ofBool (a ≤ b))
  | greaterEqual, [a, b] => .ok (ofBool (b ≤ a))
  | min, [a, b] => .ok (if b < a then b else a)
  | max, [a, b] => .ok (if a < b then b else a)
  | within, [x, low, high] => .ok (ofBool (low ≤ x && x < high))
  | _, _ => .error .operandCount

end Numeric

/-- The digests that opcodes compute. -/
inductive HashFunction
  | ripemd160 | sha1 | sha256 | hash160 | hash256
  deriving DecidableEq, Repr

def HashFunction.apply (hashes : Hashes) : HashFunction → Bytes → Bytes
  | ripemd160, message => (hashes.ripemd160 message).bytes
  | sha1, message => Digest.sha1 message
  | sha256, message => Digest.sha256 message
  | hash160, message => (hashes.hash160 message).bytes
  | hash256, message => Digest.doubleSha256 message

/-- What an opcode does. -/
inductive Action
  | nop
  | openIf (negated : Bool)
  | otherwise
  | closeIf
  | verify
  | abort
  | toAlt
  | fromAlt
  /-- Removes the top `n` items. -/
  | drop (n : Nat)
  /-- Repeats the top `n` items. -/
  | dup (n : Nat)
  /-- Repeats the `n` items below the top `n`. -/
  | dupBelow (n : Nat)
  /-- Moves the lowest `n` of the top `3 * n` items to the top. -/
  | rot (n : Nat)
  /-- Moves the lowest `n` of the top `2 * n` items to the top. -/
  | swap (n : Nat)
  | ifDup
  | depth
  | nip
  | tuck
  /-- Copies, or with `remove` moves, the item at the depth that the top item gives. -/
  | pick (remove : Bool)
  | size
  | equal
  | equalVerify
  | numeric (f : Numeric)
  | numEqualVerify
  | hash (f : HashFunction)
  | codeSeparator
  | checkSig
  | checkSigVerify
  | checkMultiSig
  | checkMultiSigVerify
  | upgradeableNop
  | invalid
  deriving DecidableEq, Repr

/-- The action of an opcode. Reserved, disabled and unassigned opcodes are invalid. -/
def Action.ofOpcode (op : Opcode) : Action :=
  match op.toNat with
  | 0x61 => .nop
  | 0x63 => .openIf false
  | 0x64 => .openIf true
  | 0x67 => .otherwise
  | 0x68 => .closeIf
  | 0x69 => .verify
  | 0x6a => .abort
  | 0x6b => .toAlt
  | 0x6c => .fromAlt
  | 0x6d => .drop 2
  | 0x6e => .dup 2
  | 0x6f => .dup 3
  | 0x70 => .dupBelow 2
  | 0x71 => .rot 2
  | 0x72 => .swap 2
  | 0x73 => .ifDup
  | 0x74 => .depth
  | 0x75 => .drop 1
  | 0x76 => .dup 1
  | 0x77 => .nip
  | 0x78 => .dupBelow 1
  | 0x79 => .pick false
  | 0x7a => .pick true
  | 0x7b => .rot 1
  | 0x7c => .swap 1
  | 0x7d => .tuck
  | 0x82 => .size
  | 0x87 => .equal
  | 0x88 => .equalVerify
  | 0x8b => .numeric .add1
  | 0x8c => .numeric .sub1
  | 0x8f => .numeric .negate
  | 0x90 => .numeric .abs
  | 0x91 => .numeric .not
  | 0x92 => .numeric .nonZero
  | 0x93 => .numeric .add
  | 0x94 => .numeric .sub
  | 0x9a => .numeric .boolAnd
  | 0x9b => .numeric .boolOr
  | 0x9c => .numeric .equal
  | 0x9d => .numEqualVerify
  | 0x9e => .numeric .notEqual
  | 0x9f => .numeric .less
  | 0xa0 => .numeric .greater
  | 0xa1 => .numeric .lessEqual
  | 0xa2 => .numeric .greaterEqual
  | 0xa3 => .numeric .min
  | 0xa4 => .numeric .max
  | 0xa5 => .numeric .within
  | 0xa6 => .hash .ripemd160
  | 0xa7 => .hash .sha1
  | 0xa8 => .hash .sha256
  | 0xa9 => .hash .hash160
  | 0xaa => .hash .hash256
  | 0xab => .codeSeparator
  | 0xac => .checkSig
  | 0xad => .checkSigVerify
  | 0xae => .checkMultiSig
  | 0xaf => .checkMultiSigVerify
  | n => if 0xb0 ≤ n ∧ n ≤ 0xb9 then .upgradeableNop else .invalid

end SpendScript
