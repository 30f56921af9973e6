import SpendScript.Proofs.ShortestNumber

/-! # Numbers told by their bytes

The magnitude of an item is put together byte by byte, and only the last byte has a bit less (`Number.natAbs_decode_cons`).
So an item is the shortest one of its value, is in the range of four bytes, or is true, by what its bytes are, and the tests
on bytes agree with those on numbers (`Number.tests_agree`). -/

namespace SpendScript

namespace Number
variable {b : UInt8} {item : Bytes}

/-! ### Bits of a byte -/

theorem and_low_eq_zero (b : UInt8) : b &&& 0x7f = 0 ↔ b.toNat % 128 = 0 := by
  rw [← UInt8.toNat_inj, UInt8.toNat_and]
  exact iff_of_eq (congrArg (· = 0) (Nat.and_two_pow_sub_one_eq_mod b.toNat 7))

theorem and_high_ne_zero (b : UInt8) : b &&& 0x80 ≠ 0 ↔ 128 ≤ b.toNat := by
  have hbits : ∀ c : BitVec 8, c &&& 0x80#8 ≠ 0#8 ↔ 128 ≤ c.toNat := by decide +kernel
  rw [ne_eq, ← UInt8.toBitVec_inj]
  exact hbits b.toBitVec

/-! ### The magnitude -/

theorem signBit_step {size : Nat} (h : 0 < size) : signBit (size + 1) = 256 * signBit size := by
  obtain ⟨k, rfl⟩ := Nat.exists_eq_succ_of_ne_zero (Nat.pos_iff_ne_zero.mp h)
  rw [signBit_succ, Nat.succ_eq_add_one, signBit_succ, show 8 * (k + 1) + 7 = 8 * k + 7 + 8 by omega, Nat.pow_add, Nat.mul_comm]

theorem natAbs_decode_singleton (b : UInt8) : (decode [b]).natAbs = b.toNat % 128 := by
  have hlt := b.toNat_lt
  have hvalue : Bytes.toNatLE [b] = b.toNat := by simp [Bytes.toNatLE]
  have hsign : signBit 1 = 128 := by decide
  unfold decode
  rw [hvalue, List.length_singleton, hsign]
  dsimp only
  split <;> omega

/-- A byte before others counts in full, and shifts their magnitude by a byte. -/
theorem natAbs_decode_cons (h : item ≠ []) : (decode (b :: item)).natAbs = b.toNat + 256 * (decode item).natAbs := by
  have hlt := b.toNat_lt
  unfold decode
  rw [List.length_cons, signBit_step (List.length_pos_iff.mpr h), Bytes.toNatLE]
  dsimp only
  split <;> split <;> omega

/-! ### Truth -/

theorem isTrue_iff (item : Bytes) : isTrue item = true ↔ decode item ≠ 0 := by
  fun_induction isTrue item with
  | case1 => simp [decode, Bytes.toNatLE]
  | case2 b =>
    have hmagnitude := natAbs_decode_singleton b
    rw [bne_iff_ne, ne_eq, and_low_eq_zero]
    omega
  | case3 b rest hlong ih =>
    have hmagnitude := natAbs_decode_cons (b := b) hlong
    have hb : b = 0 ↔ b.toNat = 0 := UInt8.toNat_inj.symm
    rw [Bool.or_eq_true, bne_iff_ne, ih, ne_eq b, hb]
    omega

/-! ### The shortest item -/

/-- An item is the shortest one of its number if a byte less would not hold it. -/
theorem isMinimal_iff_signBit (size : Nat) (h : item.length = size + 1) :
    isMinimal item = true ↔ decode item ≠ 0 ∧ signBit size ≤ (decode item).natAbs := by
  have hle := width_decode_le item
  have hless : width (decode item) ≤ size ↔ decode item = 0 ∨ (decode item).natAbs < signBit size := width_le_iff
  rw [isMinimal_iff_width, ← Nat.not_lt, ← not_or, ← hless]
  omega

theorem isMinimal_singleton (b : UInt8) : isMinimal [b] = true ↔ b &&& 0x7f ≠ 0 := by
  have hmagnitude := natAbs_decode_singleton b
  rw [isMinimal_iff_signBit 0 rfl, ne_eq (b &&& 0x7f), and_low_eq_zero]
  have hsign : signBit 0 = 0 := by decide
  omega

theorem isMinimal_pair (b c : UInt8) : isMinimal [b, c] = true ↔ c &&& 0x7f ≠ 0 ∨ b &&& 0x80 ≠ 0 := by
  have hmagnitude := natAbs_decode_cons (b := b) (List.cons_ne_nil c [])
  have hlast := natAbs_decode_singleton c
  have hsign : signBit 1 = 128 := by decide
  have hb := b.toNat_lt
  rw [isMinimal_iff_signBit 1 rfl, ne_eq (c &&& 0x7f), and_low_eq_zero, and_high_ne_zero]
  omega

/-- Bytes before the last two do not matter. -/
theorem isMinimal_cons (h : 2 ≤ item.length) : isMinimal (b :: item) = true ↔ isMinimal item = true := by
  have hne : item ≠ [] := by
    rintro rfl
    exact absurd h (by decide)
  have hmagnitude := natAbs_decode_cons (b := b) hne
  have hb := b.toNat_lt
  obtain ⟨size, hsize⟩ := Nat.exists_eq_add_of_le h
  have hstep : signBit (size + 2) = 256 * signBit (size + 1) := signBit_step (Nat.succ_pos _)
  have hpos : 0 < signBit (size + 1) := by
    rw [signBit_succ]
    exact Nat.two_pow_pos _
  have hlong : (b :: item).length = size + 2 + 1 := by rw [List.length_cons]; omega
  rw [isMinimal_iff_signBit (size + 2) hlong, isMinimal_iff_signBit (size + 1) (by omega)]
  omega

theorem isMinimal_iff_bytes (item : Bytes) : isMinimal item = true ↔ item = [] ∨
    (∃ last, [last] <:+ item ∧ last &&& 0x7f ≠ 0) ∨ ∃ before last, [before, last] <:+ item ∧ before &&& 0x80 ≠ 0 := by
  induction item with
  | nil => exact ⟨fun _ => Or.inl rfl, fun _ => rfl⟩
  | cons b item ih =>
    cases item with
    | nil => simp [isMinimal_singleton, List.suffix_cons_iff]
    | cons c item =>
      cases item with
      | nil => simp [isMinimal_pair, List.suffix_cons_iff]
      | cons d item =>
        rw [isMinimal_cons (Nat.le_add_left 2 _), ih]
        simp [List.suffix_cons_iff]

/-! ### The range of four bytes -/

theorem width_le_four_iff {n : Int} : width n ≤ 4 ↔ -int32Max ≤ n ∧ n ≤ int32Max := by
  have hsign : signBit 4 = 0x80000000 := by decide
  rw [width_le_iff, hsign]
  unfold int32Max
  omega

theorem decodeInt32?_ne_none : decodeInt32? item ≠ none ↔ width (decode item) ≤ 4 := by
  rw [width_le_four_iff]
  simp [decodeInt32?]

/-- What tests on bytes say of items of any length is what they say as numbers: which of them are the shortest of their value,
    which of these are in the range of four bytes, that no item of four bytes is outside it, and which are true. -/
theorem tests_agree :
    (∀ item : Bytes, isMinimal item = true ↔ item = [] ∨ (∃ last, [last] <:+ item ∧ last &&& 0x7f ≠ 0) ∨
      ∃ before last, [before, last] <:+ item ∧ before &&& 0x80 ≠ 0) ∧
    (∀ item : Bytes, isMinimal item = true → (decodeInt32? item ≠ none ↔ item.length ≤ 4)) ∧
    (∀ item : Bytes, item.length ≤ 4 → -0x7fffffff ≤ decode item ∧ decode item ≤ 0x7fffffff) ∧
    ∀ item : Bytes, isTrue item = true ↔ decode item ≠ 0 := by
  refine ⟨isMinimal_iff_bytes, fun item hminimal => ?_, fun item hlen => ?_, isTrue_iff⟩
  · rw [decodeInt32?_ne_none, isMinimal_iff_width.mp hminimal]
  · exact width_le_four_iff.mp (Nat.le_trans (width_decode_le item) hlen)

/-- A negative zero with padding is not minimal and false; the least number beyond four bytes is minimal and out of range,
    and the greatest one of four bytes is in it. -/
theorem tests_agree_extremes :
    isMinimal [0x00, 0x00, 0x80] = false ∧ isTrue [0x00, 0x00, 0x80] = false ∧
    isMinimal [0x00, 0x00, 0x00, 0x80, 0x80] = true ∧ ¬decodeInt32? [0x00, 0x00, 0x00, 0x80, 0x80] ≠ none ∧
    -0x7fffffff ≤ decode [0xff, 0xff, 0xff, 0xff] ∧ decode [0xff, 0xff, 0xff, 0xff] ≤ 0x7fffffff := by
  obtain ⟨-, hrange, hbound, -⟩ := tests_agree
  have hminimal : isMinimal [0x00, 0x00, 0x00, 0x80, 0x80] = true := by decide
  exact ⟨by decide, by decide, hminimal, mt (hrange _ hminimal).mp (by decide), hbound _ (by decide)⟩

end Number

end SpendScript
