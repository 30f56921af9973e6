import SpendScript.Capacity
import SpendScript.Curve.Secp256k1
import SpendScript.Machine.State
import SpendScript.Transaction

/-! # Signature hashes

What a signature of an input signs: the hash of a copy of the transaction in which the parts that the signature
does not commit to are blanked, followed by the signature hash type. -/

namespace SpendScript.Tx

/-- The element of a list at an index that counts from the end if it is negative. -/
def elementAt {α : Type} (items : List α) (index : Int) : Except Fault α :=
  let position := if index < 0 then index + items.length else index
  if position < 0 then .error .indexRange
  else
    match items[position.toNat]? with
    | some item => .ok item
    | none => .error .indexRange

/-- An input with its script blanked and, with `blankSequence`, its sequence number. -/
def blankInput (blankSequence : Bool) (i : TxInput) : TxInput :=
  { i with unlock := [], sequence := if blankSequence then 0 else i.sequence }

/-- The inputs of the copy: the signed one holds the script code, the others are blanked or left out. -/
def signingInputs (tx : Tx) (index : Int) (code : Bytes) (h : SigHash) : Except Fault (List TxInput) :=
  if h.anyoneCanPay then do
    let signed ← elementAt tx.inputs index
    return [{ signed with unlock := code }]
  else
    let blankSequences := h.baseKind == .none || h.baseKind == .single
    .ok (tx.inputs.zipIdx.map fun (i, n) =>
      if (n : Int) = index then { i with unlock := code } else blankInput blankSequences i)

/-- The outputs of the copy: all, none, or the one at the index of the signed input after blank ones. -/
def signingOutputs (tx : Tx) (index : Int) (h : SigHash) : Except Fault (List TxOutput) :=
  match h.baseKind with
  | .none => .ok []
  | .single => do
    -- The blank outputs are formed first, and are no more than there are outputs if the signed one is there.
    if index < 0 ∨ tx.outputs.length ≤ index then Capacity.checkList index
    let signed ← elementAt tx.outputs index
    return List.replicate index.toNat TxOutput.null ++ [signed]
  | _ => .ok tx.outputs

/-- The copy of the transaction that is signed for an input. The index is taken as it is. -/
def signingCopy (tx : Tx) (index : Int) (code : Bytes) (h : SigHash) : Except Fault Tx := do
  let inputs ← signingInputs tx index (Script.withoutSeparators code) h
  let outputs ← signingOutputs tx index h
  return { tx with inputs, outputs }

/-- The hash that takes the place of one that cannot be formed: the number one in 32 bytes. -/
def missingHash : Bytes := 1 :: List.replicate 31 0

/-- The bytes whose hash is signed for an input. -/
def preimage (tx : Tx) (index : Int) (code : Bytes) (h : SigHash) : Except Fault Bytes := do
  let copy ← signingCopy tx index code h
  return (← copy.toBytes) ++ h.bytes32

/-- The hash that is signed for an input. It is `missingHash` if there is no such input, or if the type asks for
    the output at its index and there is none. -/
def signatureHash (tx : Tx) (index : Int) (code : Bytes) (h : SigHash) : Except Fault Bytes :=
  if index < 0 ∨ tx.inputs.length ≤ index then .ok missingHash
  else if h.baseKind = .single ∧ tx.outputs.length ≤ index then .ok missingHash
  else (preimage tx index code h).map Digest.doubleSha256

/-- The answer to a signature for an input of a transaction. A key that gives no point of the curve fails the check. That
    the hash or the signature cannot be formed is a fault. -/
def checkSignature (tx : Tx) (index : Int) (code key : Bytes) (sig : TxSignature) : Except Fault Bool :=
  match Curve.Point.ofKey? key with
  | none => .ok false
  | some point => do
    let hash ← signatureHash tx index code sig.sigHash
    let _ ← sig.toLowS.toDer
    return Curve.verify hash sig.toLowS.r.toNat sig.toLowS.s.toNat point

/-- The check of signatures for an input of a transaction, which must be one that can be written. -/
def sigCheck (tx : Tx) (index : Int) : SigCheck := fun code key sig =>
  (checkSignature tx index code key sig).toOption.getD false

end SpendScript.Tx
