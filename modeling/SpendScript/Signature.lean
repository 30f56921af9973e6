import SpendScript.Signature.Der
import SpendScript.Signature.SigHash

/-! # Signatures in scripts

A signature in a script is a DER encoding followed by a signature hash type. -/

namespace SpendScript

/-- The numbers of a signature and the type of hash that they sign. -/
structure TxSignature where
  r : Int
  s : Int
  sigHash : SigHash
  deriving DecidableEq, Repr

namespace TxSignature

/-- Whether `s` lies in the lower half of the group. -/
def isLowS (s : Int) : Bool := s ≤ Der.halfOrder

/-- Reads a signature in any lax encoding. -/
def ofBytes (sig : Bytes) : Except Fault TxSignature :=
  if sig = [] then .error .emptySignature
  else (Der.decodeLax sig.dropLast).map fun (r, s) => ⟨r, s, SigHash.ofSignature sig⟩

/-- Reads a signature that is strictly encoded, has a low `s` and a defined type. -/
def ofBytesCanonical (sig : Bytes) : Except Fault TxSignature := do
  match ← Der.inspect sig with
  | .loose => .error .notStrictDer
  | .strictHigh => .error .highS
  | .strictLow =>
    let h := SigHash.ofSignature sig
    if h.isDefined then ofBytes sig else .error (.undefinedSigHash h.text)

def toDer (sig : TxSignature) : Except Fault Bytes := Der.encode sig.r sig.s

/-- The encoding followed by the type. -/
def toBytes (sig : TxSignature) : Except Fault Bytes := return (← sig.toDer) ++ [sig.sigHash.value]

def isCanonical (sig : TxSignature) : Bool := isLowS sig.s && sig.sigHash.isDefined

/-- The signature of the same message with a low `s`. -/
def toLowS (sig : TxSignature) : TxSignature :=
  if isLowS sig.s then sig else { sig with s := Der.curveOrder - sig.s }

/-- Signature bytes as script text shows them: the encoding in hexadecimal and the type in brackets. -/
def shown (sig : Bytes) : Except Fault Text :=
  (Der.decodeLax sig.dropLast).map fun _ =>
    Bytes.hex sig.dropLast ++ "[" ++ (SigHash.ofSignature sig).text ++ "]"

end TxSignature

end SpendScript
