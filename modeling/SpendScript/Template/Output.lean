import SpendScript.Digest
import SpendScript.Script.Operation

/-! # Standard outputs

The locking scripts of standard form, each with the one script that it is written as, and the recognition of
that script. Any other script is unknown. -/

namespace SpendScript

/-- The most keys of a standard multiple signature script. -/
def maxMultisigKeys : Nat := 16

/-- Public keys of which a number of signatures is asked. -/
structure Multisig where
  keys : List PublicKey
  threshold : Nat
  bounds : 1 ≤ threshold ∧ threshold ≤ keys.length ∧ keys.length ≤ maxMultisigKeys
  deriving DecidableEq

namespace Multisig

def ofKeys (keys : List PublicKey) (threshold : Int) : Except Fault Multisig :=
  if h : 1 ≤ threshold.toNat ∧ threshold.toNat ≤ keys.length ∧ keys.length ≤ maxMultisigKeys then
    .ok ⟨keys, threshold.toNat, h⟩
  else .error (Fault.badThreshold threshold keys.length).reported

/-- All keys must have the form of public keys, and the threshold must be among their numbers. -/
def make (keys : List Bytes) (threshold : Int) : Except Fault Multisig := do
  ofKeys (← keys.mapM PublicKey.make) threshold

/-- The keys between a threshold and their count. -/
def ofItems (items : List Bytes) : Except Fault Multisig :=
  match items with
  | threshold :: second :: rest =>
    let keys := (second :: rest).dropLast
    let count := Number.decode ((second :: rest).getLastD [])
    if count = keys.length then make keys (Number.decode threshold)
    else .error (Fault.keyCount keys.length count).reported
  | _ => .error .shortTemplate

/-- The same keys in the order of their bytes. -/
def sorted (m : Multisig) : Multisig :=
  ⟨m.keys.mergeSort fun a b => a.bytes.le b.bytes, m.threshold, by simpa using m.bounds⟩

end Multisig

/-- A locking script by its form. -/
inductive Output
  /-- `OP_DUP OP_HASH160 <hash> OP_EQUALVERIFY OP_CHECKSIG` -/
  | p2pkh (hash : Hash160)
  /-- `OP_HASH160 <hash> OP_EQUAL` -/
  | p2sh (hash : Hash160)
  /-- `<key> OP_CHECKSIG` -/
  | p2pk (key : PublicKey)
  /-- `<threshold> <key> ... <count> OP_CHECKMULTISIG` -/
  | multisig (m : Multisig)
  /-- Any other script. -/
  | unknown (script : Bytes)
  deriving DecidableEq

namespace Output

/-- The output to the hash of a public key. -/
def ofPublicKey (hashes : Hashes) (key : Bytes) : Output := .p2pkh (hashes.hash160 key)

/-- The output to the hash of a script. -/
def ofRedeemScript (hashes : Hashes) (script : Bytes) : Output := .p2sh (hashes.hash160 script)

/-- The script of an output. -/
def toScript : Output → Bytes
  | p2pkh hash =>
    [Opcode.opDup, Opcode.opHash160] ++ Push.encode hash.bytes ++ [Opcode.opEqualVerify, Opcode.opCheckSig]
  | p2sh hash => [Opcode.opHash160] ++ Push.encode hash.bytes ++ [Opcode.opEqual]
  | p2pk key => Push.encode key.bytes ++ [Opcode.opCheckSig]
  | multisig m =>
    Push.encode (Number.encode m.threshold) ++ m.keys.flatMap (fun key => Push.encode key.bytes)
      ++ Push.encode (Number.encode m.keys.length) ++ [Opcode.opCheckMultiSig]
  | unknown script => script

/-- The hash that an output to the hash of this script holds. -/
def scriptHash (hashes : Hashes) (o : Output) : Hash160 := hashes.hash160 o.toScript

/-- Whether the script has one of the forms with keys, which a hash may stand for. -/
def isRedeemable : Output → Bool
  | p2sh _ | unknown _ => false
  | _ => true

/-! ### Recognition -/

/-- The opcodes of a script, with `OP_PUSHDATA1` in place of every operation that pushes an item. -/
def shape (ops : List Operation) : List Opcode :=
  ops.map fun op => if op.item?.isSome then Opcode.pushData1 else op.opcode

/-- The items that operations push. -/
def pushedItems (ops : List Operation) : List Bytes := ops.filterMap Operation.item?

def p2pkhShape : List Opcode :=
  [Opcode.opDup, Opcode.opHash160, Opcode.pushData1, Opcode.opEqualVerify, Opcode.opCheckSig]

def p2shShape : List Opcode := [Opcode.opHash160, Opcode.pushData1, Opcode.opEqual]

def p2pkShape : List Opcode := [Opcode.pushData1, Opcode.opCheckSig]

/-- At least three pushes and `OP_CHECKMULTISIG`. -/
def isMultisigShape (shape : List Opcode) : Bool :=
  4 ≤ shape.length && shape == List.replicate (shape.length - 1) Opcode.pushData1 ++ [Opcode.opCheckMultiSig]

/-- The standard output that some operations look like, however their items are pushed. -/
def ofOps (ops : List Operation) : Except Fault Output :=
  let items := pushedItems ops
  if shape ops = p2pkhShape then (Hash160.make (items.headD [])).map .p2pkh
  else if shape ops = p2shShape then (Hash160.make (items.headD [])).map .p2sh
  else if shape ops = p2pkShape then (PublicKey.make (items.headD [])).map .p2pk
  else if isMultisigShape (shape ops) then (Multisig.ofItems items).map .multisig
  else .error .shortTemplate

/-- The classes of faults that tell that items do not make up what was looked for. -/
def misfits : List FaultClass := [.badValue, .badType, .invalidSignature]

/-- The output that a script is: a standard one only if it is written exactly as that one is. That a script is cut off,
    or that its items do not make up an output, is no fault. -/
def recognize (script : Bytes) : Except Fault Output := do
  let some ops ← Fault.tolerate [.truncatedScript] (Script.decode script) | return .unknown script
  let some o ← Fault.tolerate misfits (ofOps ops) | return .unknown script
  return if o.toScript = script then o else .unknown script

/-- The output that a script is. -/
def classify (script : Bytes) : Output := (recognize script).toOption.getD (.unknown script)

end Output

end SpendScript
