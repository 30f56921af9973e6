import SpendScript.Script.Push

/-! # Operations and scripts

A script is a byte string. It is read as operations one after another until its end, or until a push that
reaches beyond the end. Main statements: the operations that are read, written one after another, and the
unread tail are the script. -/

namespace SpendScript

/-- One operation of a script: a push of data after its length, or any other opcode. -/
inductive Operation
  | push (p : PushData)
  | code (op : Opcode)
  deriving DecidableEq

namespace Operation

/-- The first byte of an operation. -/
def opcode : Operation → Opcode
  | push p => p.opcode
  | code op => op

/-- The operation of any byte as an opcode. -/
def ofInt (n : Int) : Except Fault Operation :=
  if 0 ≤ n ∧ n ≤ 255 then .ok (.code (UInt8.ofNat n.toNat)) else .error .wordRange

/-- The item that an opcode without data pushes, if it pushes one. -/
def constant? (op : Opcode) : Option Bytes :=
  if op = Opcode.op0 then some []
  else if op = Opcode.oneNegate then some [0x81]
  else if Opcode.op1 ≤ op ∧ op ≤ Opcode.op16 then some [op - Opcode.op1 + 1]
  else none

/-- The item that an operation pushes, if it pushes one. -/
def item? : Operation → Option Bytes
  | push p => some p.data
  | code op => constant? op

def toBytes : Operation → Bytes
  | push p => p.toBytes
  | code op => [op]

/-- How many bytes an operation takes. -/
def size : Operation → Nat
  | push p => p.size
  | code _ => 1

theorem length_toBytes (op : Operation) : op.toBytes.length = op.size := by
  cases op with
  | push p => exact p.length_toBytes
  | code _ => rfl

theorem size_pos (op : Operation) : 0 < op.size := by
  cases op with
  | push p =>
    have : p.size = 1 + p.encoding.lengthWidth + p.data.length := rfl
    change 0 < p.size
    omega
  | code _ => exact Nat.one_pos

/-- Reads the data of a push of which the encoding and the length are known. -/
def readData (encoding : PushEncoding) (size : Nat) (h : encoding.Accepts size) (rest : Bytes) :
    Except Truncation Operation :=
  if same : (rest.take size).length = size then .ok (.push ⟨rest.take size, encoding, same.symm ▸ h⟩)
  else .error (.data size (rest.take size).length)

/-- The lengths that the bytes of a length can hold are accepted. -/
theorem accepts_field {encoding : PushEncoding} {field : Bytes} (h : field.length = encoding.lengthWidth)
    (long : encoding ≠ .direct) : encoding.Accepts (Bytes.toNatLE field) := by
  have hlt := Bytes.toNatLE_lt field
  rw [h] at hlt
  cases encoding with
  | direct => exact absurd rfl long
  | one | two | four => exact ⟨Nat.zero_le _, Nat.le_sub_one_of_lt hlt⟩

/-- Reads a push whose length stands in the bytes after its opcode. -/
def readLong (op : Opcode) (encoding : PushEncoding) (long : encoding ≠ .direct) (rest : Bytes) :
    Except Truncation Operation :=
  if h : (rest.take encoding.lengthWidth).length = encoding.lengthWidth then
    readData encoding (Bytes.toNatLE (rest.take encoding.lengthWidth)) (accepts_field h long)
      (rest.drop encoding.lengthWidth)
  else .error (.length op)

/-- Reads the operation that starts with an opcode and goes on with the bytes after it. -/
def read (op : Opcode) (rest : Bytes) : Except Truncation Operation :=
  if h : PushEncoding.direct.Accepts op.toNat then readData .direct op.toNat h rest
  else if op = Opcode.pushData1 then readLong op .one (by decide) rest
  else if op = Opcode.pushData2 then readLong op .two (by decide) rest
  else if op = Opcode.pushData4 then readLong op .four (by decide) rest
  else .ok (.code op)

theorem readData_ok {encoding : PushEncoding} {size : Nat} {h : encoding.Accepts size} {rest : Bytes} {o : Operation}
    (e : readData encoding size h rest = .ok o) :
    ∃ p : PushData, o = .push p ∧ p.encoding = encoding ∧ p.data = rest.take size ∧ p.data.length = size := by
  unfold readData at e
  split at e
  · rename_i same
    cases e
    exact ⟨_, rfl, rfl, rfl, same⟩
  · cases e

theorem readLong_ok {op : Opcode} {encoding : PushEncoding} {long : encoding ≠ .direct} {rest : Bytes} {o : Operation}
    (e : readLong op encoding long rest = .ok o) :
    ∃ p : PushData, o = .push p ∧ p.encoding = encoding ∧
      Bytes.ofNatLE encoding.lengthWidth p.data.length = rest.take encoding.lengthWidth ∧
      p.data = (rest.drop encoding.lengthWidth).take p.data.length := by
  unfold readLong at e
  split at e
  · rename_i same
    obtain ⟨p, rfl, henc, hdata, hlen⟩ := readData_ok e
    refine ⟨p, rfl, henc, ?_, ?_⟩
    · rw [hlen]
      have := Bytes.ofNatLE_toNatLE (rest.take encoding.lengthWidth)
      rwa [same] at this
    · rw [hlen]
      exact hdata
  · cases e

/-- A push that starts with a given opcode and was read from the bytes after it. -/
theorem toBytes_push {op : Opcode} {rest : Bytes} {p : PushData} (hop : p.opcode = op)
    (hfield : Bytes.ofNatLE p.encoding.lengthWidth p.data.length = rest.take p.encoding.lengthWidth)
    (hdata : p.data = (rest.drop p.encoding.lengthWidth).take p.data.length) :
    p.toBytes ++ rest.drop (p.size - 1) = op :: rest := by
  have hsize : p.size - 1 = p.encoding.lengthWidth + p.data.length := by
    unfold PushData.size
    omega
  have hrest : rest.take p.encoding.lengthWidth ++ (p.data ++ rest.drop (p.size - 1)) = rest := by
    rw [hsize, ← List.drop_drop]
    conv => lhs; arg 2; arg 1; rw [hdata]
    rw [List.take_append_drop, List.take_append_drop]
  rw [PushData.toBytes, hop, hfield, List.cons_append, List.cons_append, List.append_assoc, hrest]

/-- What is read, written again, and the bytes after it are what it was read from. -/
theorem toBytes_read {op : Opcode} {rest : Bytes} {o : Operation} (e : read op rest = .ok o) :
    o.toBytes ++ rest.drop (o.size - 1) = op :: rest := by
  unfold read at e
  split at e
  · obtain ⟨p, rfl, henc, hdata, hlen⟩ := readData_ok e
    refine toBytes_push ?_ ?_ ?_
    · rw [PushData.opcode, henc, hlen]
      exact UInt8.ofNat_toNat
    · rw [henc]
      rfl
    · rw [henc, hlen]
      exact hdata
  · split at e
    · rename_i hop
      obtain ⟨p, rfl, henc, hfield, hdata⟩ := readLong_ok e
      exact toBytes_push (by rw [PushData.opcode, henc, hop]; rfl) (henc ▸ hfield) (henc ▸ hdata)
    · split at e
      · rename_i hop
        obtain ⟨p, rfl, henc, hfield, hdata⟩ := readLong_ok e
        exact toBytes_push (by rw [PushData.opcode, henc, hop]; rfl) (henc ▸ hfield) (henc ▸ hdata)
      · split at e
        · rename_i hop
          obtain ⟨p, rfl, henc, hfield, hdata⟩ := readLong_ok e
          exact toBytes_push (by rw [PushData.opcode, henc, hop]; rfl) (henc ▸ hfield) (henc ▸ hdata)
        · cases e
          rfl

end Operation

/-- A push that reaches beyond the end of a script: how it does, and the bytes from its opcode on. -/
structure Cut where
  cause : Truncation
  rest : Bytes
  deriving DecidableEq

/-- What a script reads as: its operations up to the end or up to a cut. -/
structure Listing where
  ops : List Operation
  cut : Option Cut
  deriving DecidableEq

namespace Listing

/-- The bytes after the last whole operation. -/
def tail (l : Listing) : Bytes := (l.cut.map Cut.rest).getD []

/-- The operations, or how the script is cut off. -/
def complete (l : Listing) : Except Fault (List Operation) :=
  match l.cut with
  | none => .ok l.ops
  | some cut => .error (.truncated cut.cause)

end Listing

namespace Script

/-- Reads operations after skipping some bytes. -/
def scan : Bytes → (skip : Nat) → Listing
  | [], _ => ⟨[], none⟩
  | _ :: bs, skip + 1 => scan bs skip
  | b :: bs, 0 =>
    match Operation.read b bs with
    | .ok op =>
      let rest := scan bs (op.size - 1)
      ⟨op :: rest.ops, rest.cut⟩
    | .error cause => ⟨[], some ⟨cause, b :: bs⟩⟩

/-- What a script reads as. -/
def listing (script : Bytes) : Listing := scan script 0

/-- The operations of a script that reads to its end. -/
def decode (script : Bytes) : Except Fault (List Operation) := (listing script).complete

/-- The script of some operations. -/
def ofOps (ops : List Operation) : Bytes := ops.flatMap Operation.toBytes

/-- Whether a script reads to its end and all its opcodes are at most `OP_16`. -/
def isPushOnly (script : Bytes) : Bool :=
  let l := listing script
  l.cut.isNone && l.ops.all fun op => op.opcode ≤ Opcode.op16

/-- Whether an operation is the shortest push of an item. -/
def isShortestPush (op : Operation) : Bool :=
  match op.item? with
  | some item => op.opcode == Push.opcode item
  | none => false

/-- Whether a script reads to its end and all its operations are shortest pushes. -/
def isMinimalPushOnly (script : Bytes) : Bool :=
  let l := listing script
  l.cut.isNone && l.ops.all isShortestPush

/-- Whether a script is `OP_HASH160`, a direct push of twenty bytes and `OP_EQUAL`. -/
def isP2SH (script : Bytes) : Bool :=
  script.length == 23 && script[0]? == some Opcode.opHash160 && script[1]? == some 20
    && script[22]? == some Opcode.opEqual

/-- The script as it is shown. -/
def shown (script : Bytes) : Text := "Script<\"" ++ Bytes.hex script ++ "\">"

theorem scan_skip (bs : Bytes) (skip : Nat) : scan bs skip = scan (bs.drop skip) 0 := by
  induction bs generalizing skip with
  | nil => cases skip <;> rfl
  | cons b bs ih =>
    cases skip with
    | zero => rfl
    | succ n => simpa [scan] using ih n

/-- The operations of a script, written one after another, and its unread tail are the script. -/
theorem ofOps_listing (script : Bytes) : ofOps (listing script).ops ++ (listing script).tail = script := by
  suffices all : ∀ n (bs : Bytes), bs.length ≤ n → ofOps (scan bs 0).ops ++ (scan bs 0).tail = bs from
    all script.length script (Nat.le_refl _)
  intro n
  induction n with
  | zero =>
    intro bs h
    cases bs with
    | nil => rfl
    | cons b bs => simp at h
  | succ n ih =>
    intro bs h
    cases bs with
    | nil => rfl
    | cons b bs =>
      unfold scan
      split
      · rename_i op e
        have short : (bs.drop (op.size - 1)).length ≤ n := by
          simp only [List.length_cons, List.length_drop] at h ⊢
          omega
        have rest := ih _ short
        rw [← scan_skip] at rest
        have whole := Operation.toBytes_read e
        simp only [Listing.tail, ofOps] at rest ⊢
        rw [List.flatMap_cons, List.append_assoc, rest]
        exact whole
      · rfl

end Script

end SpendScript
