import SpendScript.Fault

/-! # Public keys and hashes

The byte strings that standard scripts hold: public keys in their two forms, and hashes of twenty bytes. -/

namespace SpendScript

/-- Whether bytes have the form of a public key: 33 bytes that start with 2 or 3, or 65 that start with 4. -/
def isPublicKey (key : Bytes) : Bool :=
  (key.length == 33 && (key.head? == some 2 || key.head? == some 3)) || (key.length == 65 && key.head? == some 4)

/-- Bytes that have the form of a public key. -/
structure PublicKey where
  bytes : Bytes
  valid : isPublicKey bytes = true
  deriving DecidableEq

def PublicKey.make (bytes : Bytes) : Except Fault PublicKey :=
  if h : isPublicKey bytes = true then .ok ⟨bytes, h⟩ else .error (.badPublicKey bytes)

/-- The hash of a public key or of a script. -/
structure Hash160 where
  bytes : Bytes
  length_bytes : bytes.length = 20
  deriving DecidableEq

def Hash160.make (bytes : Bytes) : Except Fault Hash160 :=
  if h : bytes.length = 20 then .ok ⟨bytes, h⟩ else .error .hashLength

theorem PublicKey.length_bytes (k : PublicKey) : k.bytes.length = 33 ∨ k.bytes.length = 65 := by
  have h := k.valid
  simp only [isPublicKey, Bool.or_eq_true, Bool.and_eq_true, beq_iff_eq] at h
  rcases h with h | h
  · exact Or.inl h.1
  · exact Or.inr h.1

end SpendScript
