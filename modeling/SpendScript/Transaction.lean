import SpendScript.Digest
import SpendScript.Wire.CompactSize

/-! # Transactions

A transaction spends outputs of other transactions by its inputs and creates outputs. This file holds its wire
format. -/

namespace SpendScript

/-- An input: the output that it spends and the script that unlocks it. -/
structure TxInput where
  prevHash : Bytes
  prevIndex : Int
  unlock : Bytes
  sequence : Int
  deriving DecidableEq, Repr

/-- An output: an amount and the script that locks it. -/
structure TxOutput where
  value : Int
  lock : Bytes
  deriving DecidableEq, Repr

/-- A transaction. -/
structure Tx where
  version : Int
  inputs : List TxInput
  outputs : List TxOutput
  locktime : Int
  deriving DecidableEq, Repr

namespace TxInput

/-- The sequence number of a final input. -/
def finalSequence : Int := 0xffffffff

def read : Wire.Reader TxInput := do
  let prevHash ← Wire.take 32
  let prevIndex ← Wire.Word.uint32.read
  let unlock ← Wire.CompactSize.readBytes
  let sequence ← Wire.Word.uint32.read
  return { prevHash, prevIndex, unlock, sequence }

def toBytes (i : TxInput) : Except Fault Bytes := do
  let prevIndex ← Wire.Word.uint32.write i.prevIndex
  let unlock ← Wire.CompactSize.writeBytes i.unlock
  let sequence ← Wire.Word.uint32.write i.sequence
  return i.prevHash ++ prevIndex ++ unlock ++ sequence

def shown (i : TxInput) : Text :=
  "TxInput(prev_hash=\"" ++ Digest.display i.prevHash ++ "\", prev_idx=" ++ Text.intText i.prevIndex
    ++ ", script_sig=\"" ++ Bytes.hex i.unlock ++ "\", sequence=" ++ Text.intText i.sequence ++ ")"

end TxInput

namespace TxOutput

/-- The output that takes the place of one that is not signed. -/
def null : TxOutput := ⟨-1, []⟩

def read : Wire.Reader TxOutput := do
  let value ← Wire.Word.int64.read
  let lock ← Wire.CompactSize.readBytes
  return { value, lock }

def toBytes (o : TxOutput) : Except Fault Bytes := do
  let value ← Wire.Word.int64.write o.value
  let lock ← Wire.CompactSize.writeBytes o.lock
  return value ++ lock

def shown (o : TxOutput) : Text :=
  "TxOutput(value=" ++ Text.intText o.value ++ ", script_pubkey=\"" ++ Bytes.hex o.lock ++ "\")"

end TxOutput

namespace Tx

def read : Wire.Reader Tx := do
  let version ← Wire.Word.int32.read
  let inputs ← Wire.CompactSize.readList TxInput.read
  let outputs ← Wire.CompactSize.readList TxOutput.read
  let locktime ← Wire.Word.uint32.read
  return { version, inputs, outputs, locktime }

/-- Reads a transaction from the front of some bytes. -/
def ofBytes (bytes : Bytes) : Except Fault Tx := Wire.Reader.value read bytes

def toBytes (tx : Tx) : Except Fault Bytes := do
  let version ← Wire.Word.int32.write tx.version
  let inputs ← Wire.CompactSize.writeList TxInput.toBytes tx.inputs
  let outputs ← Wire.CompactSize.writeList TxOutput.toBytes tx.outputs
  let locktime ← Wire.Word.uint32.write tx.locktime
  return version ++ inputs ++ outputs ++ locktime

def shown (tx : Tx) : Text :=
  "Tx(version=" ++ Text.intText tx.version ++ ", inputs=[" ++ Text.join ", " (tx.inputs.map TxInput.shown)
    ++ "], outputs=[" ++ Text.join ", " (tx.outputs.map TxOutput.shown) ++ "], locktime="
    ++ Text.intText tx.locktime ++ ")"

end Tx

end SpendScript
