import SpendScript.Wire.Reader

/-! # Fixed-width integers

Integers of a fixed number of bytes, least significant byte first; signed ones in two's complement. Main
statement: what is written is read back, whatever follows. -/

namespace SpendScript.Wire

/-- How an integer of fixed width is laid out. -/
structure Word where
  width : Nat
  signed : Bool
  deriving DecidableEq, Repr

namespace Word

def byte : Word := ⟨1, false⟩
def uint16 : Word := ⟨2, false⟩
def uint32 : Word := ⟨4, false⟩
def uint64 : Word := ⟨8, false⟩
def int32 : Word := ⟨4, true⟩
def int64 : Word := ⟨8, true⟩

/-- How many values a word has. -/
def modulus (w : Word) : Nat := 256 ^ w.width

/-- Whether a number is a value of the word. -/
def Fits (w : Word) (n : Int) : Prop :=
  if w.signed then -(w.modulus : Int) ≤ 2 * n ∧ 2 * n < w.modulus else 0 ≤ n ∧ n < w.modulus

instance (w : Word) (n : Int) : Decidable (w.Fits n) := by
  unfold Fits
  infer_instance

/-- The bytes of a number that fits. -/
def write (w : Word) (n : Int) : Except Fault Bytes :=
  if w.Fits n then .ok (Bytes.ofNatLE w.width (n % w.modulus).toNat) else .error .wordRange

/-- The value of a word whose bytes read as `n` without a sign. -/
def value (w : Word) (n : Nat) : Int := if w.signed ∧ w.modulus ≤ 2 * n then n - w.modulus else n

/-- Reads a number. -/
def read (w : Word) : Reader Int := do
  let bytes ← takeExact w.width
  return w.value bytes.toNatLE

theorem modulus_pos (w : Word) : 0 < w.modulus := Nat.pow_pos (by decide)

theorem value_emod (w : Word) {n : Int} (h : w.Fits n) : w.value (n % w.modulus).toNat = n := by
  have hpos := w.modulus_pos
  have hne : (w.modulus : Int) ≠ 0 := by omega
  have h0 := Int.emod_nonneg n hne
  unfold value Fits at *
  cases hs : w.signed <;> simp only [hs, Bool.false_eq_true, if_false, if_true, false_and, true_and] at h ⊢
  · rw [Int.toNat_of_nonneg h0, Int.emod_eq_of_lt h.1 h.2]
  · by_cases hn : 0 ≤ n
    · rw [Int.emod_eq_of_lt hn (by omega)]
      split <;> omega
    · have : n % (w.modulus : Int) = n + w.modulus := by
        rw [← Int.add_emod_right, Int.emod_eq_of_lt (by omega) (by omega)]
      rw [this]
      split <;> omega

/-- A written number is read back. -/
theorem read_append {w : Word} {n : Int} {bytes : Bytes} (hw : w.width ≤ maxRead) (h : w.write n = .ok bytes)
    (rest : Bytes) : w.read (bytes ++ rest) = .ok n rest := by
  unfold write at h
  split at h
  · rename_i hfit
    cases h
    have hpos := w.modulus_pos
    have hlt : (n % (w.modulus : Int)).toNat < 256 ^ w.width := by
      have h0 := Int.emod_nonneg n (show (w.modulus : Int) ≠ 0 by omega)
      have h1 := Int.emod_lt_of_pos n (show (0 : Int) < w.modulus by omega)
      change _ < w.modulus
      omega
    have htake := @takeExact_append (Bytes.ofNatLE w.width (n % (w.modulus : Int)).toNat) rest (by simpa using hw)
    rw [Bytes.length_ofNatLE] at htake
    simp [read, bind, EStateM.bind, htake, pure, EStateM.pure, Bytes.toNatLE_ofNatLE _ _ hlt, value_emod w hfit]
  · cases h

end Word

end SpendScript.Wire
