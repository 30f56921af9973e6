import SpendScript.Wire.Word

/-! # Signature hash types

The byte at the end of a signature tells which parts of a transaction the signature commits to. Every byte is
kept as it is; a byte is defined if it is one of the three kinds, with or without the bit `ANYONE_CAN_PAY`. -/

namespace SpendScript

/-- The kinds of signature hash types. -/
inductive SigHashKind
  | unknown | all | none | single
  deriving DecidableEq, Repr

def SigHashKind.name : SigHashKind → String
  | unknown => "UNKNOWN"
  | all => "ALL"
  | none => "NONE"
  | single => "SINGLE"

/-- A signature hash type. -/
structure SigHash where
  value : UInt8
  deriving DecidableEq, Repr

namespace SigHash

def all : SigHash := ⟨1⟩
def none : SigHash := ⟨2⟩
def single : SigHash := ⟨3⟩

/-- The bit that leaves the other inputs out. -/
def anyoneCanPayBit : UInt8 := 0x80

/-- The type of a byte value. -/
def ofInt (n : Int) : Except Fault SigHash :=
  if 0 ≤ n ∧ n ≤ 255 then .ok ⟨UInt8.ofNat n.toNat⟩ else .error (Fault.sigHashByte n).reported

/-- The type at the end of a signature; zero for an empty one. -/
def ofSignature (sig : Bytes) : SigHash := ⟨sig.getLast?.getD 0⟩

/-- The kind that a byte names exactly. -/
def kind (h : SigHash) : SigHashKind :=
  if h.value &&& 0x7f = 1 then .all
  else if h.value &&& 0x7f = 2 then .none
  else if h.value &&& 0x7f = 3 then .single
  else .unknown

def anyoneCanPay (h : SigHash) : Bool := h.value &&& anyoneCanPayBit != 0

/-- The kind that hashing goes by: the low five bits, where all but two values count as `ALL`. -/
def baseKind (h : SigHash) : SigHashKind :=
  if h.value &&& 0x1f = 2 then .none else if h.value &&& 0x1f = 3 then .single else .all

def isDefined (h : SigHash) : Bool := h.kind != .unknown

def withAnyoneCanPay (h : SigHash) : SigHash := ⟨h.value ||| anyoneCanPayBit⟩

/-- The four bytes that end what is hashed. -/
def bytes32 (h : SigHash) : Bytes := Bytes.ofNatLE 4 h.value.toNat

def text (h : SigHash) : Text :=
  match h.kind with
  | .unknown => "UNKNOWN(0x" ++ Text.hexDigits 2 h.value.toNat ++ ")"
  | kind => if h.anyoneCanPay then kind.name ++ "|ANYONE_CAN_PAY" else kind.name

/-- The type as it is shown. -/
def shown (h : SigHash) : Text := "SigHash(" ++ h.text ++ ")"

end SigHash

end SpendScript
