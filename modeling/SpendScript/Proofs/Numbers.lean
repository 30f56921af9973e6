import SpendScript.Script.Number

/-! # The range of script numbers

An item of some bytes holds numbers below the value of its sign bit in magnitude, and the bytes that a number is
written in leave room for its sign, so that the number is read back from them (`Number.decode_encodeIn`). -/

namespace SpendScript

namespace Bytes

theorem bitLength_le_iff {n k : Nat} : bitLength n ≤ k ↔ n < 2 ^ k := by
  unfold bitLength
  split
  · rename_i h
    subst h
    exact ⟨fun _ => Nat.two_pow_pos k, fun _ => Nat.zero_le k⟩
  · rename_i h
    rw [Nat.add_one_le_iff, Nat.log2_lt h]

theorem checkFit_eq {n size : Nat} (h : bitLength n ≤ 8 * size) : checkFit n size = .ok () := by
  have hfits : ¬((n : Int) < 0 ∨ 8 * (size : Int) < bitLength n) := by omega
  exact if_neg hfits

/-- A number that fits its bytes is written in them without a fault, if bytes can have that size. -/
theorem ofIntLE_eq {n size : Nat} (h : bitLength n ≤ 8 * size) :
    ofIntLE n (some size) = (Capacity.checkBytes size).map fun _ => ofNatLE size n := by
  have hsize : ¬(size : Int) < 0 := by omega
  unfold ofIntLE sizeFor
  simp only [checkFit_eq h, hsize, if_false]
  cases Capacity.checkBytes size with
  | error f => rfl
  | ok u => rfl

end Bytes

namespace Number
variable {n : Int} {size : Nat}

/-! ### The sign bit -/

theorem signBit_succ (k : Nat) : signBit (k + 1) = 2 ^ (8 * k + 7) := by
  have h : (256 : Nat) ^ (k + 1) = 2 ^ (8 * k + 7) * 2 := by
    rw [show (256 : Nat) = 2 ^ 8 from rfl, ← Nat.pow_mul, ← Nat.pow_succ, Nat.mul_succ]
  unfold signBit
  rw [h, Nat.mul_div_cancel _ (by decide)]

theorem two_mul_signBit (h : 0 < size) : 2 * signBit size = 256 ^ size := by
  obtain ⟨k, rfl⟩ := Nat.exists_eq_succ_of_ne_zero (Nat.pos_iff_ne_zero.mp h)
  rw [signBit_succ, Nat.mul_comm, ← Nat.pow_succ, show (256 : Nat) = 2 ^ 8 from rfl, ← Nat.pow_mul]
  rfl

theorem signBit_mono {size' : Nat} (h : size ≤ size') : signBit size ≤ signBit size' :=
  Nat.div_le_div_right (Nat.pow_le_pow_right (by decide) h)

/-! ### Reading -/

theorem natAbs_decode_le (item : Bytes) : (decode item).natAbs ≤ signBit item.length := by
  have hlt := Bytes.toNatLE_lt item
  unfold decode
  dsimp only
  split
  · rename_i hs
    rw [Int.natAbs_neg, Int.natAbs_natCast]
    rcases Nat.eq_zero_or_pos item.length with h0 | hpos
    · rw [h0] at hlt ⊢
      have : (256 : Nat) ^ 0 = 1 := rfl
      omega
    · have := two_mul_signBit hpos
      omega
  · rename_i hs
    rw [Int.natAbs_natCast]
    omega

/-! ### Writing -/

theorem width_pos (h : n ≠ 0) : 0 < width n := by
  unfold width
  rw [if_neg h]
  omega

theorem natAbs_lt_signBit (h : n ≠ 0) (hs : width n ≤ size) : n.natAbs < signBit size := by
  have hpos := width_pos h
  obtain ⟨k, rfl⟩ := Nat.exists_eq_succ_of_ne_zero (show size ≠ 0 by omega)
  rw [Nat.succ_eq_add_one, signBit_succ, ← Bytes.bitLength_le_iff]
  unfold width at hs
  rw [if_neg h] at hs
  omega

theorem signed_lt (h : width n ≤ size) : signed size n < 256 ^ size := by
  unfold signed
  split
  · rename_i hneg
    have hn : n ≠ 0 := by omega
    have hlt := natAbs_lt_signBit hn h
    have := two_mul_signBit (Nat.lt_of_lt_of_le (width_pos hn) h)
    omega
  · by_cases hn : n = 0
    · subst hn
      exact Nat.pow_pos (by decide)
    · have hlt := natAbs_lt_signBit hn h
      have := two_mul_signBit (Nat.lt_of_lt_of_le (width_pos hn) h)
      omega

/-- A number within the magnitude of some binary digits needs one more for its sign. -/
theorem width_le {k : Nat} (h : n.natAbs < 2 ^ k) : width n ≤ (k + 8) / 8 := by
  have := Bytes.bitLength_le_iff.mpr h
  unfold width
  split
  · exact Nat.zero_le _
  · omega

theorem bitLength_signed_le (h : width n ≤ size) : Bytes.bitLength (signed size n) ≤ 8 * size := by
  rw [Bytes.bitLength_le_iff, Nat.pow_mul]
  exact signed_lt h

/-- A number fits the bytes that it needs, so it is written without a fault. -/
theorem item_eq (n : Int) : item n = .ok (encode n) := by
  unfold item
  rw [Bytes.checkFit_eq (bitLength_signed_le (Nat.le_refl (width n)))]
  rfl

/-! ### Reading back -/

theorem decode_encodeIn (h : width n ≤ size) : decode (encodeIn size n) = n := by
  have hvalue : (encodeIn size n).toNatLE = signed size n := Bytes.toNatLE_ofNatLE _ _ (signed_lt h)
  unfold decode
  rw [hvalue, length_encodeIn]
  unfold signed
  rcases Int.lt_trichotomy n 0 with hneg | rfl | hpos
  · dsimp only
    rw [if_pos hneg, if_pos (Nat.le_add_left _ _)]
    omega
  · dsimp only
    split <;> simp
  · have hlt := natAbs_lt_signBit (Int.ne_of_gt hpos) h
    dsimp only
    rw [if_neg (Int.not_lt.mpr (Int.le_of_lt hpos)), if_neg (Nat.not_le.mpr hlt)]
    omega

theorem decode_encode (n : Int) : decode (encode n) = n := decode_encodeIn (Nat.le_refl _)

theorem isMinimal_encode (n : Int) : isMinimal (encode n) = true := by
  unfold isMinimal
  rw [decode_encode]
  exact beq_self_eq_true _

end Number

end SpendScript
