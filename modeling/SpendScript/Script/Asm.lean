import SpendScript.Script.Operation
import SpendScript.Signature

/-! # Script text

A script is shown as words between spaces: an item of up to four bytes as a decimal number, a longer one in
hexadecimal, any other opcode by its name. Text is read as words of the same kinds, or, if it is pure
hexadecimal, as the bytes of a script. -/

namespace SpendScript.Script

/-! ### Showing -/

/-- The word of an opcode that pushes nothing. -/
def codeWord (op : Int) : Text :=
  match Opcode.ofInt? op with
  | some op => op.label
  | none => if op = 0xff then "OP_INVALIDOPCODE" else "OP_UNKNOWN"

/-- The word of an item. With `sigHashes`, an item that reads as a signature is shown with its type. -/
def itemWord (sigHashes : Bool) (item : Bytes) : Text :=
  if item.length ≤ 4 then Text.intText (Number.decode item)
  else if sigHashes && item.head? == some 0x30 then
    match TxSignature.shown item with
    | .ok text => text
    | .error _ => Bytes.hex item
  else Bytes.hex item

def opWord (sigHashes : Bool) (op : Operation) : Text :=
  match op.item? with
  | some item => itemWord sigHashes item
  | none => codeWord op.opcode.toNat

/-- Words with a space between each two. -/
def joinWords (ws : List Text) : Text := Text.join " " ws

/-- What stands for the cut-off end of a script. -/
def truncatedWord : Text := "[script error]"

/-- A script as words; a cut-off end is shown as `cutWord`. -/
def toAsm (script : Bytes) (sigHashes : Bool) (cutWord : Text) : Text :=
  let l := listing script
  let ws := l.ops.map (opWord sigHashes)
  joinWords (if l.cut.isSome then ws ++ [cutWord] else ws)

/-! ### Reading -/

/-- The bytes of lower-case hexadecimal text without blanks. -/
def ofHex (text : Text) : Except Fault Bytes :=
  match Bytes.readHex? text with
  | none => .error .malformedHex
  | some bytes => if Bytes.hex bytes = text then .ok bytes else .error .impureHex

/-- The push of the item that a word gives in hexadecimal. An item that is too large to push makes a bad word too. -/
def pushWord (word : Text) : Except Fault Bytes :=
  match Bytes.readHex? word with
  | some item => (Push.item item).mapError fun _ => .badPushWord word
  | none => .error (.badPushWord word)

/-- Whether a word starts like the name of an opcode. -/
def isName (word : Text) : Bool := (Text.ofString "OP_").isPrefixOf word

/-- Whether a word starts with a minus sign. -/
def isNegative (word : Text) : Bool := word.head? == some (CodePoint.ofChar '-')

/-- A word without a leading minus sign. -/
def unsigned (word : Text) : Text := if isNegative word then word.drop 1 else word

/-- The integer that a word with or without a minus sign stands for. -/
def readInt (word : Text) : Except Fault Int :=
  match Text.readNat? (unsigned word) with
  | none => .error .malformedDecimal
  | some n => .ok (if isNegative word then -(n : Int) else n)

/-- The script bytes of a word: the name of an opcode, a decimal number of up to four bytes, or data in
    hexadecimal. -/
def wordBytes (word : Text) : Except Fault Bytes :=
  if isName word then
    match Opcode.ofName? word with
    | some op => .ok [op]
    | none => .error (.unknownWord word)
  else if Text.isDigits (unsigned word) then do
    let n ← readInt word
    if n.natAbs ≤ Number.int32Max then Push.number n else pushWord word
  else pushWord word

/-- Reads a script from words. -/
def ofAsm (text : Text) : Except Fault Bytes := do
  let parts ← (Text.words text).mapM wordBytes
  return parts.flatten

/-- Reads a script from pure hexadecimal or else from words. -/
def ofText (text : Text) : Except Fault Bytes :=
  match ofHex text with
  | .ok bytes => .ok bytes
  | .error _ => ofAsm text

end SpendScript.Script
