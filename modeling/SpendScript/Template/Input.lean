import SpendScript.Script.Build
import SpendScript.Signature
import SpendScript.Template.Output

/-! # Standard inputs

The unlocking scripts of standard form, the scripts that they are written as, the outputs that they can spend,
and the recognition of such scripts. -/

namespace SpendScript

/-- Signatures for a multiple signature script, at most as many as are asked of it. -/
structure MultisigInput where
  signatures : List TxSignature
  required : Nat
  bounds : 1 ≤ required ∧ required ≤ maxMultisigKeys ∧ signatures.length ≤ required
  deriving DecidableEq

namespace MultisigInput

def make (signatures : List TxSignature) (required : Int) : Except Fault MultisigInput :=
  if h : 1 ≤ required.toNat ∧ required.toNat ≤ maxMultisigKeys ∧ signatures.length ≤ required.toNat then
    .ok ⟨signatures, required.toNat, h⟩
  else .error (Fault.badRequired signatures.length required).reported

/-- The signatures after an empty item; empty items stand for signatures that are not there yet. -/
def ofItems (items : List Bytes) : Except Fault MultisigInput :=
  match items with
  | [] => .error .missingDummy
  | dummy :: rest =>
    if dummy ≠ [] then .error .dummyNotEmpty
    else do make (← (rest.filter (· ≠ [])).mapM TxSignature.ofBytes) rest.length

end MultisigInput

/-- An unlocking script by its form. -/
inductive Input
  /-- `<signature> <key>` -/
  | p2pkh (sig : TxSignature) (key : PublicKey)
  /-- `<signature>` -/
  | p2pk (sig : TxSignature)
  /-- `OP_0 <signature> ...`, with `OP_0` for every missing signature -/
  | multisig (m : MultisigInput)
  /-- The input of a script followed by a push of that script. -/
  | p2sh (inner : Input) (redeem : Output)
  /-- Any other script. -/
  | unknown (script : Bytes)
  deriving DecidableEq

namespace Input

/-- Whether an input has the form that an output asks for. -/
def fits (hashes : Hashes) : Input → Output → Bool
  | p2pkh _ _, .p2pkh _ => true
  | p2pk _, .p2pk _ => true
  | multisig i, .multisig o => i.required == o.threshold
  | p2sh _ redeem, .p2sh hash => hash == redeem.scriptHash hashes
  | _, _ => false

/-- The input of a script and that script, which the input must have the form for. -/
def makeP2sh (hashes : Hashes) (inner : Input) (redeem : Output) : Except Fault Input :=
  if inner.fits hashes redeem then .ok (.p2sh inner redeem) else .error .redeemMismatch

/-- The script of an input. Signatures out of range have none. -/
def toScript : Input → Except Fault Bytes
  | p2pkh sig key => do Script.pushMany [← sig.toBytes, key.bytes]
  | p2pk sig => do Script.pushMany [← sig.toBytes]
  | multisig m => do
    let sigs ← m.signatures.mapM TxSignature.toBytes
    Script.pushMany ([] :: sigs ++ List.replicate (m.required - m.signatures.length) [])
  | p2sh inner redeem => do Script.append (← inner.toScript) (.data redeem.toScript)
  | unknown script => .ok script

/-! ### Recognition -/

def ofP2pkhItems : List Bytes → Except Fault Input
  | [sig, key] => do return .p2pkh (← TxSignature.ofBytes sig) (← PublicKey.make key)
  | _ => .error .shortTemplate

def ofP2pkItems : List Bytes → Except Fault Input
  | [sig] => (TxSignature.ofBytes sig).map .p2pk
  | _ => .error .shortTemplate

/-- What a form of inputs makes of the items of a script. -/
abbrev Form := List Bytes → Except Fault Input

/-- A form that has two items or more. -/
def Form.ofTwo (form : Form) : Form := fun items => if items.length < 2 then .error .shortTemplate else form items

/-- The input that items are in the first of some forms that they make up. -/
def firstOf : List Form → (items : List Bytes) → Except Fault (Option Input)
  | [], _ => .ok none
  | form :: forms, items => do
    match ← Fault.tolerate Output.misfits (form items) with
    | some i => return some i
    | none => firstOf forms items

/-- The input that a script of pushes is in the first of some forms. -/
def recognizeAs (forms : List Form) (script : Bytes) : Except Fault (Option Input) := do
  let some ops ← Fault.tolerate [.truncatedScript] (Script.decode script) | return none
  if ops.all (·.item?.isSome) then firstOf forms (Output.pushedItems ops) else return none

/-- The forms with keys and signatures. -/
def plainForms : List Form :=
  [ofP2pkhItems, ofP2pkItems, Form.ofTwo fun items => (MultisigInput.ofItems items).map .multisig]

/-- The items for a script followed by that script. -/
def ofP2shItems (hashes : Hashes) (items : List Bytes) : Except Fault Input :=
  if items = [] then .error .shortTemplate
  else do
    let redeem ← Output.recognize (items.getLastD [])
    if redeem.isRedeemable then
      match ← recognizeAs plainForms (← Script.pushMany items.dropLast) with
      | some inner => makeP2sh hashes inner redeem
      | none => .error .redeemInputsNotStandard
    else .error .redeemNotStandard

def forms (hashes : Hashes) : List Form := plainForms ++ [Form.ofTwo (ofP2shItems hashes)]

/-- The input that a script is. That it is cut off, or that its items do not make up an input, is no fault. -/
def recognize (hashes : Hashes) (script : Bytes) : Except Fault Input :=
  return (← recognizeAs (forms hashes) script).getD (.unknown script)

/-- The input that a script is. -/
def classify (hashes : Hashes) (script : Bytes) : Input := (recognize hashes script).toOption.getD (.unknown script)

end Input

end SpendScript
