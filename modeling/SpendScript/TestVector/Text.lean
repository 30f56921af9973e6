import SpendScript.Script.Asm

/-! # Script text of test vectors

The scripts of test vectors are written as tokens between blanks: `0x` and bytes to be taken as they are, a
decimal number to be pushed, text between single quotes to be pushed in UTF-8, or the name of an opcode with or
without `OP_`. The whole must read as a script to its end. -/

namespace SpendScript.TestVector

/-- The text between the single quotes of a token. -/
def quotedText? (token : Text) : Option Text :=
  if 2 ≤ token.length ∧ token.head? = some Text.singleQuote ∧ token.getLast? = some Text.singleQuote then
    some (token.drop 1).dropLast
  else none

/-- The opcode of a name that may lack its `OP_`. -/
def opcode? (token : Text) : Option Opcode :=
  Opcode.ofName? (if Script.isName token then token else "OP_" ++ token)

/-- The bytes of a token after its `0x`. -/
def rawBytes (token : Text) : Except Fault Bytes :=
  match Bytes.readHex? (token.drop 2) with
  | some bytes => .ok bytes
  | none => .error (.badHexToken token)

/-- The bytes of a token that is neither raw bytes nor a number. -/
def symbolBytes (token : Text) : Except Fault Bytes :=
  match quotedText? token with
  | some [] => .ok [Opcode.op0]
  | some text =>
    match Text.utf8? text with
    | some data => (PushData.shortest data).map PushData.toBytes
    | none => .error .unencodableText
  | none =>
    match opcode? token with
    | some op => .ok [op]
    | none => .error (.unknownToken token)

/-- The script bytes of a token. -/
def tokenBytes (token : Text) : Except Fault Bytes :=
  if (Text.ofString "0x").isPrefixOf token then rawBytes token
  else if Text.isDigits (Script.unsigned token) then Script.readInt token >>= Push.number
  else symbolBytes token

/-- Reads a script from tokens. It must read to its end as operations. That these have the bytes of the script is not checked
    as well, for whatever reads to its end has the bytes of its operations (`Script.ofOps_listing`). -/
def parseScript (text : Text) : Except Fault Bytes := do
  let parts ← (Text.words text).mapM tokenBytes
  let script := parts.flatten
  match (Script.listing script).cut with
  | none => return script
  | some cut => throw (.undecodable text cut.cause)

end SpendScript.TestVector
