import SpendScript.Bytes.Hex
import SpendScript.Digest.Ripemd160
import SpendScript.Digest.Sha1
import SpendScript.Digest.Sha256
import SpendScript.PublicKey

/-! # Digests of scripts and transactions

The two composed digests: SHA-256 twice for transactions and signature hashes, RIPEMD-160 of SHA-256 for public
keys and redeem scripts. What goes by the digests of twenty bytes takes them as it is given them (`Hashes`). -/

namespace SpendScript

namespace Digest

def doubleSha256 (message : Bytes) : Bytes := sha256 (sha256 message)

def hash160 (message : Bytes) : Bytes := ripemd160 (sha256 message)

@[simp] theorem length_doubleSha256 (message : Bytes) : (doubleSha256 message).length = 32 := by
  simp [doubleSha256]

@[simp] theorem length_hash160 (message : Bytes) : (hash160 message).length = 20 := by
  simp [hash160]

/-- A transaction hash as it is displayed: its bytes from last to first, in hexadecimal. -/
def display (hash : Bytes) : Text := Bytes.hex hash.reverse

end Digest

/-- The functions by which items, public keys and scripts are hashed to twenty bytes. -/
structure Hashes where
  ripemd160 : Bytes → Hash160
  hash160 : Bytes → Hash160

/-- RIPEMD-160 of the message itself and of its SHA-256 digest. -/
def Hashes.standard : Hashes where
  ripemd160 message := ⟨Digest.ripemd160 message, Digest.length_ripemd160 message⟩
  hash160 message := ⟨Digest.hash160 message, Digest.length_hash160 message⟩

end SpendScript
