import SpendScript.Script.Number

/-! # Pushes

An item is pushed by an operation that holds it, after its length in one of four encodings; the empty item and
the numbers -1 and 1 to 16 are also pushed by an opcode of their own. Of the pushes of an item one is the
shortest, and this file tells which. -/

namespace SpendScript

/-- How the length of pushed data is encoded: in the opcode itself, or in one, two or four bytes after it. -/
inductive PushEncoding
  | direct | one | two | four
  deriving DecidableEq, Repr

namespace PushEncoding

def all : List PushEncoding := [direct, one, two, four]

def name : PushEncoding → String
  | direct => "DIRECT"
  | one => "PUSHDATA1"
  | two => "PUSHDATA2"
  | four => "PUSHDATA4"

def ofName? (name : String) : Option PushEncoding := all.find? (·.name == name)

/-- How many bytes after the opcode hold the length. -/
def lengthWidth : PushEncoding → Nat
  | direct => 0
  | one => 1
  | two => 2
  | four => 4

/-- The least and the greatest length that can be encoded. -/
def least : PushEncoding → Nat
  | direct => 1
  | _ => 0

def greatest : PushEncoding → Nat
  | direct => 75
  | e => 256 ^ e.lengthWidth - 1

/-- Whether data of a length can be pushed in an encoding. -/
def Accepts (e : PushEncoding) (size : Nat) : Prop := e.least ≤ size ∧ size ≤ e.greatest

instance (e : PushEncoding) (size : Nat) : Decidable (e.Accepts size) := inferInstanceAs (Decidable (_ ∧ _))

/-- The opcode of a push of data of a length. -/
def opcode : PushEncoding → (size : Nat) → Opcode
  | direct, size => UInt8.ofNat size
  | one, _ => Opcode.pushData1
  | two, _ => Opcode.pushData2
  | four, _ => Opcode.pushData4

/-- The shortest encoding for a length below 2^32. -/
def shortest (size : Nat) : PushEncoding :=
  if size < 76 then direct else if size ≤ 0xff then one else if size ≤ 0xffff then two else four

/-- The shortest encoding for a length. -/
def forLength (size : Int) : Except Fault PushEncoding :=
  if size ≤ 0xffffffff then .ok (shortest size.toNat) else .error .itemTooLarge

end PushEncoding

/-- An operation that pushes data after its length. -/
structure PushData where
  data : Bytes
  encoding : PushEncoding
  accepted : encoding.Accepts data.length
  deriving DecidableEq

namespace PushData

/-- The push of data in an encoding. -/
def make (data : Bytes) (encoding : PushEncoding) : Except Fault PushData :=
  if h : encoding.Accepts data.length then .ok ⟨data, encoding, h⟩
  else if encoding = .direct ∧ data = [] then .error .emptyDirectPush
  else .error (.pushTooLong data.length encoding.name)

/-- The push of data in its shortest encoding. -/
def shortest (data : Bytes) : Except Fault PushData := do make data (← PushEncoding.forLength data.length)

def opcode (p : PushData) : Opcode := p.encoding.opcode p.data.length

/-- The opcode, the bytes of the length and the data. -/
def toBytes (p : PushData) : Bytes :=
  p.opcode :: Bytes.ofNatLE p.encoding.lengthWidth p.data.length ++ p.data

/-- How many bytes a push takes. -/
def size (p : PushData) : Nat := 1 + p.encoding.lengthWidth + p.data.length

theorem length_toBytes (p : PushData) : p.toBytes.length = p.size := by
  simp [toBytes, size]
  omega

/-- The push as it is shown: the data between quotes, and the name of the encoding. -/
def shown (p : PushData) : Text := "PushData(" ++ Text.quoted (Bytes.hex p.data) ++ ", " ++ p.encoding.name ++ ")"

end PushData

namespace Push

/-- The opcode that pushes an item by itself, if there is one. -/
def single? : Bytes → Option Opcode
  | [] => some Opcode.op0
  | [b] => if 1 ≤ b ∧ b ≤ 16 then some (Opcode.op1 + b - 1) else if b = 0x81 then some Opcode.oneNegate else none
  | _ => none

/-- The first byte of the shortest push of an item. -/
def opcode (item : Bytes) : Opcode :=
  (single? item).getD ((PushEncoding.shortest item.length).opcode item.length)

/-- The shortest push of an item below 2^32 bytes. -/
def encode (item : Bytes) : Bytes :=
  match single? item with
  | some op => [op]
  | none =>
    let e := PushEncoding.shortest item.length
    e.opcode item.length :: Bytes.ofNatLE e.lengthWidth item.length ++ item

/-- The shortest push of an item. -/
def item (item : Bytes) : Except Fault Bytes :=
  if item.length < 2 ^ 32 then .ok (encode item) else .error .itemTooLarge

/-- The shortest push of a number. -/
def number (n : Int) : Except Fault Bytes := item (Number.encode n)

end Push

/-- Whether the push is the shortest one of its data. -/
def PushData.isMinimal (p : PushData) : Bool :=
  !(p.data.length = 1 ∧ Push.opcode p.data ≠ 1) && p.encoding == PushEncoding.shortest p.data.length

end SpendScript
