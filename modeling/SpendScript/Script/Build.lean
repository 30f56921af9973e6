import SpendScript.Script.Operation
import SpendScript.Text.Literal

/-! # Building scripts

A script grows by pieces: an opcode stands for itself, a number and data are pushed, a push and a script are
taken as their bytes. Other values cannot be appended. -/

namespace SpendScript.Script

/-- What can be offered to a script. -/
inductive Piece
  | opcode (op : Opcode)
  | number (n : Int)
  | data (item : Bytes)
  | push (p : PushData)
  | script (bytes : Bytes)
  | other (value : Literal)

/-- The bytes that a piece appends. A truth value is the number 0 or 1. -/
def Piece.bytes : Piece → Except Fault Bytes
  | opcode op => .ok [op]
  | number n => Push.number n
  | data item => Push.item item
  | push p => .ok p.toBytes
  | script bytes => .ok bytes
  | other (.integer n) => Push.number n
  | other (.bool b) => Push.number (if b then 1 else 0)
  | other value => .error (.unappendable value.shown)

/-- A script with a piece appended. -/
def append (script : Bytes) (piece : Piece) : Except Fault Bytes := return script ++ (← piece.bytes)

/-- A script with pieces appended, or the first fault. -/
def appendAll (script : Bytes) (pieces : List Piece) : Except Fault Bytes := do
  let parts ← pieces.mapM Piece.bytes
  return script ++ parts.flatten

/-- The shortest pushes of items one after another. -/
def pushMany (items : List Bytes) : Except Fault Bytes := appendAll [] (items.map .data)

/-- Whether a script equals what a piece holds: the bytes of data or of another script. -/
def sameAs (script : Bytes) : Piece → Bool
  | .data item => script == item
  | .script bytes => script == bytes
  | _ => false

end SpendScript.Script
