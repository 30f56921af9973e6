import SpendScript.Machine.Flags
import SpendScript.PublicKey
import SpendScript.Script.Delete
import SpendScript.Signature

/-! # Limits

The flags and limits that a script is evaluated under, and the checks that depend on nothing else. -/

namespace SpendScript

/-- The flags and limits of an evaluation. -/
structure Limits where
  flags : Flags := .mandatory
  /-- The most bytes of a script. -/
  scriptSize : Int := 10000
  /-- The most bytes of a pushed item. -/
  itemSize : Int := 520
  /-- The most counted operations of a script. -/
  opsPerScript : Int := 201
  /-- The most items on both stacks together. -/
  stackSize : Int := 1000
  /-- The most public keys of a multiple signature check. -/
  keysPerMultisig : Int := 20
  /-- The most bytes of a number. -/
  numberLength : Int := 4
  deriving DecidableEq, Repr

namespace Limits

/-- The limits that blocks are subject to. -/
def default : Limits := { }

/-- Script code without the shortest pushes of a signature. -/
def cleanCode (sig code : Bytes) : Except Fault Bytes := (Push.item sig).map fun push => Script.delete push code

def checkNullDummy (l : Limits) (dummy : Bytes) : Except Fault Unit :=
  if dummy ≠ [] ∧ l.flags.has .requireNullDummy then .error .nullDummy else .ok ()

/-- A defect of a signature: a fault if it is one that the flags reject, otherwise no signature. -/
def defect (rejected : Bool) (f : Fault) : Except Fault (Option TxSignature) :=
  if rejected then .error f else .ok none

/-- The signature of some bytes if it is canonical. A defect is a fault if the flags meet `strict`, or if they
    name the defect. An empty signature is none and never a fault. -/
def checkSignature (l : Limits) (sig : Bytes) (strict : Flags) : Except Fault (Option TxSignature) :=
  if sig = [] then .ok none
  else do
    match ← Der.inspect sig with
    | .loose => defect (l.flags.meets strict) .strictDerRequired
    | .strictHigh => defect (l.flags.meets strict || l.flags.has .requireLowS) .highS
    | .strictLow =>
      let h := SigHash.ofSignature sig
      if h.isDefined then (TxSignature.ofBytes sig).map some
      else defect (l.flags.meets strict || l.flags.has .requireStrictEncoding) (.undefinedSigHash h.text)

def checkPublicKey (l : Limits) (key : Bytes) : Except Fault Unit :=
  if l.flags.has .requireStrictEncoding ∧ ¬ isPublicKey key then .error .publicKeyEncoding else .ok ()

def checkPublicKeyCount (l : Limits) (count : Int) : Except Fault Unit :=
  if 0 ≤ count ∧ count ≤ l.keysPerMultisig then .ok ()
  else .error (Fault.publicKeyCount count l.keysPerMultisig).reported

def checkNumberLength (l : Limits) (size : Int) : Except Fault Unit :=
  if size ≤ l.numberLength then .ok () else .error (Fault.numberLength size l.numberLength).reported

/-- The number of an item that is short enough and, under the flag, minimal. -/
def number (l : Limits) (item : Bytes) : Except Fault Int := do
  l.checkNumberLength item.length
  if l.flags.has .requireMinimalPush ∧ ¬ Number.isMinimal item then .error (.numberNotMinimal item)
  else .ok (Number.decode item)

def checkItemSize (l : Limits) (size : Int) : Except Fault Unit :=
  if size ≤ l.itemSize then .ok () else .error (Fault.itemSize size l.itemSize).reported

/-- Under the flag, an item must be pushed by its shortest push. -/
def checkPush (l : Limits) (op : Int) (item : Bytes) : Except Fault Unit :=
  if l.flags.has .requireMinimalPush ∧ op ≠ (Push.opcode item).toNat then .error (.pushNotMinimal (Push.opcode item))
  else .ok ()

def checkNop (l : Limits) (op : Opcode) : Except Fault Unit :=
  if l.flags.has .rejectUpgradeableNops then .error (.upgradeableNop op) else .ok ()

end Limits

end SpendScript
