import SpendScript.Bytes

/-! # Block hashing

The three digests of the library cut a message into blocks of sixteen 32-bit words after padding it with a one
bit, zeros and its length in bits, and feed the blocks one by one to a compression function. They differ in the
byte order of words and length, and in the compression. -/

namespace SpendScript.Digest

/-- How words and the message length are laid out. -/
inductive ByteOrder
  | big | little
  deriving DecidableEq, Repr

namespace ByteOrder

/-- The word of four bytes. -/
def word : ByteOrder → UInt8 → UInt8 → UInt8 → UInt8 → UInt32
  | big, a, b, c, d => (a.toUInt32 <<< 24) ||| (b.toUInt32 <<< 16) ||| (c.toUInt32 <<< 8) ||| d.toUInt32
  | little, a, b, c, d => (d.toUInt32 <<< 24) ||| (c.toUInt32 <<< 16) ||| (b.toUInt32 <<< 8) ||| a.toUInt32

/-- The words of a byte string; up to three bytes at its end are ignored. -/
def words (order : ByteOrder) : Bytes → List UInt32
  | a :: b :: c :: d :: rest => order.word a b c d :: words order rest
  | _ => []

/-- The four bytes of a word. -/
def wordBytes : ByteOrder → UInt32 → Bytes
  | big, w => Bytes.ofNatBE 4 w.toNat
  | little, w => Bytes.ofNatLE 4 w.toNat

/-- The eight bytes of a message length. -/
def lengthBytes : ByteOrder → Nat → Bytes
  | big, n => Bytes.ofNatBE 8 n
  | little, n => Bytes.ofNatLE 8 n

@[simp] theorem length_wordBytes (order : ByteOrder) (w : UInt32) : (order.wordBytes w).length = 4 := by
  cases order <;> simp [wordBytes]

end ByteOrder

/-- How many zero bytes stand between the one bit and the length. -/
def zeroCount (size : Nat) : Nat := (119 - size % 64) % 64

/-- A message padded to whole blocks. -/
def pad (order : ByteOrder) (message : Bytes) : Bytes :=
  message ++ 0x80 :: List.replicate (zeroCount message.length) 0 ++ order.lengthBytes (8 * message.length)

def rotateLeft (x : UInt32) (n : UInt32) : UInt32 := (x <<< n) ||| (x >>> (32 - n))

def rotateRight (x : UInt32) (n : UInt32) : UInt32 := (x >>> n) ||| (x <<< (32 - n))

/-- A chaining state and the words of the block that is not yet full. -/
structure Absorbing (State : Type) where
  state : State
  block : Array UInt32

/-- Takes one word, and compresses the block that it fills. -/
def Absorbing.push {State : Type} (compress : State → Array UInt32 → State) (a : Absorbing State) (w : UInt32) :
    Absorbing State :=
  let block := a.block.push w
  if block.size = 16 then ⟨compress a.state block, #[]⟩ else ⟨a.state, block⟩

/-- The chaining state after all blocks of a message. -/
def run {State : Type} (order : ByteOrder) (compress : State → Array UInt32 → State) (initial : State)
    (message : Bytes) : State :=
  ((order.words (pad order message)).foldl (Absorbing.push compress) ⟨initial, #[]⟩).state

end SpendScript.Digest
