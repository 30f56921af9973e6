import SpendScript.Proofs.Numbers

/-! # The shortest item of a number

An item of some bytes holds exactly the numbers whose magnitude is below its sign bit (`Number.width_le_iff`), and it holds
each of them but zero in one way only (`Number.encodeIn_decode`). The item that a number is written as is therefore shorter
than every other item of the same value. A number is also written in any size from there on that bytes can have: a smaller
size is refused as a bad value, and one that no bytes have as out of range (`Number.encode_exact`). -/

namespace SpendScript

namespace Number
variable {n : Int} {item : Bytes}

/-! ### Items and widths -/

theorem width_le_iff {size : Nat} : width n ≤ size ↔ n = 0 ∨ n.natAbs < signBit size := by
  constructor
  · intro h
    by_cases hn : n = 0
    · exact Or.inl hn
    · exact Or.inr (natAbs_lt_signBit hn h)
  · rintro (rfl | h)
    · exact Nat.zero_le _
    · cases size with
      | zero => exact absurd h (Nat.not_lt_zero _)
      | succ k =>
        rw [signBit_succ] at h
        have := width_le h
        omega

theorem natAbs_decode_lt (h : item ≠ []) : (decode item).natAbs < signBit item.length := by
  have hlt := Bytes.toNatLE_lt item
  have htop := two_mul_signBit (List.length_pos_iff.mpr h)
  unfold decode
  dsimp only
  split <;> omega

theorem width_decode_le (item : Bytes) : width (decode item) ≤ item.length := by
  rw [width_le_iff]
  by_cases h : item = []
  · subst h
    exact Or.inl rfl
  · exact Or.inr (natAbs_decode_lt h)

/-- Among the items of one size only zero has two, one of either sign. -/
theorem encodeIn_decode (h : decode item ≠ 0) : encodeIn item.length (decode item) = item := by
  have hvalue : signed item.length (decode item) = item.toNatLE := by
    unfold decode at h ⊢
    dsimp only at h ⊢
    unfold signed
    split at h
    · rename_i hs
      rw [if_pos hs, if_pos (by omega)]
      omega
    · rename_i hs
      rw [if_neg hs, if_neg (by omega)]
      rfl
  rw [encodeIn, hvalue, Bytes.ofNatLE_toNatLE]

theorem eq_encode_of_length_le (h : item.length ≤ width (decode item)) : item = encode (decode item) := by
  have hlen := Nat.le_antisymm (width_decode_le item) h
  by_cases hzero : decode item = 0
  · rw [hzero] at hlen ⊢
    exact List.eq_nil_of_length_eq_zero hlen.symm
  · rw [encode, hlen, encodeIn_decode hzero]

theorem isMinimal_iff_width : isMinimal item = true ↔ width (decode item) = item.length := by
  unfold isMinimal
  rw [beq_iff_eq]
  constructor
  · intro h
    rw [← length_encode, h]
  · intro h
    exact (eq_encode_of_length_le (Nat.le_of_eq h.symm)).symm

/-! ### Given sizes -/

theorem encodeSized_of_lt {size : Int} (h : size < width n) :
    encodeSized n size = .error (Fault.numberWidth size).reported := by
  unfold encodeSized
  rw [if_pos h]
  rfl

theorem faultClass_numberWidth (size : Int) : (Fault.numberWidth size).reported.faultClass = .badValue := by
  unfold Fault.reported
  split <;> rfl

/-- Bytes can have a size and, if the number is negative, so can the number with the sign bit of that size. -/
structure Holdable (n size : Int) : Prop where
  bytes : size + 33 < Capacity.sizeEnd
  sign : n < 0 → 8 * (size - 1) ≤ Capacity.maxShift

instance (n size : Int) : Decidable (Holdable n size) :=
  decidable_of_iff (size + 33 < Capacity.sizeEnd ∧ (n < 0 → 8 * (size - 1) ≤ Capacity.maxShift))
    ⟨fun h => ⟨h.1, h.2⟩, fun h => ⟨h.bytes, h.sign⟩⟩

theorem checkBytes_eq (size : Nat) :
    Capacity.checkBytes size = if (size : Int) + 33 < Capacity.sizeEnd then .ok () else .error .intRange := by
  unfold Capacity.checkBytes
  by_cases h : (size : Int) + 33 < Capacity.sizeEnd
  · have hin : ¬((size : Int) < -Capacity.sizeEnd ∨ Capacity.sizeEnd ≤ (size : Int) + 33) := by
      unfold Capacity.sizeEnd at h ⊢
      omega
    rw [if_pos h, if_neg hin]
  · rw [if_neg h, if_pos (.inr (Int.not_lt.mp h))]

/-- The sign of a negative number is placed before the bytes are asked for. -/
theorem encodeSized_of_le {size : Nat} (h : width n ≤ size) :
    encodeSized n size = (if n < 0 then Capacity.checkShift (8 * ((size : Int) - 1)) else .ok ()) >>= fun _ =>
      (Capacity.checkBytes size).map fun _ => encodeIn size n := by
  have hwidth : ¬(size : Int) < width n := by omega
  unfold encodeSized
  rw [if_neg hwidth, Int.toNat_natCast, Bytes.ofIntLE_eq (bitLength_signed_le h)]
  change (if n < 0 then _ else _) = _
  split <;> rfl

/-- From its width on a number is written in every size that can be held. -/
theorem encodeSized_eq {size : Nat} (h : width n ≤ size) :
    encodeSized n size = if Holdable n size then .ok (encodeIn size n) else .error .intRange := by
  rw [encodeSized_of_le h, checkBytes_eq]
  by_cases hold : Holdable n size
  · have hshift : (if n < 0 then Capacity.checkShift (8 * ((size : Int) - 1)) else .ok ()) = .ok () := by
      split
      · exact if_neg (Int.not_lt.mpr (hold.sign ‹_›))
      · rfl
    rw [hshift, if_pos hold, if_pos hold.bytes]
    rfl
  · rw [if_neg hold]
    by_cases hbytes : (size : Int) + 33 < Capacity.sizeEnd
    · have hneg : n < 0 := Int.not_le.mp fun hn => hold ⟨hbytes, fun hneg => absurd hn (Int.not_le.mpr hneg)⟩
      have hshift : Capacity.maxShift < 8 * ((size : Int) - 1) := Int.not_le.mp fun hle => hold ⟨hbytes, fun _ => hle⟩
      rw [if_pos hneg, Capacity.checkShift, if_pos hshift]
      rfl
    · rw [if_neg hbytes]
      unfold Capacity.checkShift
      split
      · split <;> rfl
      · rfl

/-! ### Numbers and items -/

/-- Reading undoes writing, and every other item of a number is longer than the one it is written as. A number is written in a
    given size as an item of that size and value, or refused: as a bad value where the size is too small, and as out of range
    where no bytes have that size. -/
theorem encode_exact :
    (∀ n : Int, Number.item n = .ok (encode n) ∧ decode (encode n) = n ∧
      ∀ item, decode item = n → item ≠ encode n → (encode n).length < item.length) ∧
    (∀ n size : Int, (∃ f, encodeSized n size = .error f ∧ f.faultClass.isA .badValue = true) ↔ size < (encode n).length) ∧
    ∀ n size : Int, (encode n).length ≤ size →
      (Holdable n size → ∃ item, encodeSized n size = .ok item ∧ item.length = size ∧ decode item = n) ∧
      (¬Holdable n size → encodeSized n size = .error .intRange) := by
  simp only [length_encode]
  have hsized : ∀ n size : Int, width n ≤ size →
      (Holdable n size → ∃ item, encodeSized n size = .ok item ∧ item.length = size ∧ decode item = n) ∧
      (¬Holdable n size → encodeSized n size = .error .intRange) := by
    intro n size hle
    obtain ⟨size, rfl⟩ := Int.eq_ofNat_of_zero_le (Int.le_trans (Int.natCast_nonneg _) hle)
    have hwidth : width n ≤ size := Int.ofNat_le.mp hle
    rw [encodeSized_eq hwidth]
    refine ⟨fun hold => ?_, fun hold => if_neg hold⟩
    exact ⟨_, if_pos hold, congrArg Nat.cast (length_encodeIn size n), decode_encodeIn hwidth⟩
  refine ⟨fun n => ⟨item_eq n, decode_encode n, ?_⟩, fun n size => ⟨?_, fun h => ?_⟩, hsized⟩
  · rintro item rfl hne
    exact Nat.lt_of_not_le fun hle => hne (eq_encode_of_length_le hle)
  · rintro ⟨f, hf, hclass⟩
    refine Int.not_le.mp fun hle => ?_
    by_cases hold : Holdable n size
    · obtain ⟨item, hitem, -⟩ := (hsized n size hle).1 hold
      cases hf.symm.trans hitem
    · cases hf.symm.trans ((hsized n size hle).2 hold)
      exact absurd hclass (by decide)
  · refine ⟨_, encodeSized_of_lt h, ?_⟩
    rw [faultClass_numberWidth]
    rfl

/-- A negative number at the boundary of a byte: in a byte less than it needs, in one more, in very many, and in the greatest of
    all sizes, which no bytes have. -/
theorem encode_exact_padded :
    decode [0x80, 0x00, 0x80] = -128 ∧ (encode (-128)).length < 3 ∧
    (∃ f, encodeSized (-128) 1 = .error f ∧ f.faultClass.isA .badValue = true) ∧
    (∃ item, encodeSized (-128) 3 = .ok item ∧ (item.length : Int) = 3 ∧ decode item = -128) ∧
    (∃ item, encodeSized (-128) (2 ^ 40) = .ok item ∧ (item.length : Int) = 2 ^ 40 ∧ decode item = -128) ∧
    encodeSized (-128) (Capacity.sizeEnd - 1) = .error .intRange := by
  obtain ⟨hitems, hrefused, hsized⟩ := encode_exact
  have hlength : (encode (-128)).length = 2 := by decide
  refine ⟨by decide, (hitems (-128)).2.2 [0x80, 0x00, 0x80] (by decide) (by decide), (hrefused _ _).mpr ?_,
    (hsized _ _ ?_).1 (by decide), (hsized _ _ ?_).1 (by decide), (hsized _ _ ?_).2 (by decide)⟩
  all_goals
    rw [hlength]
    decide

/-- A size of sixty-four bits is not too small, and still no item has it. -/
theorem not_encodeSized_beyond_sizes : ((encode 5).length : Int) ≤ 9223372036854775808 ∧
    encodeSized 5 9223372036854775808 = .error .intRange ∧
    ¬∃ item, encodeSized 5 9223372036854775808 = .ok item ∧ (item.length : Int) = 9223372036854775808 ∧ decode item = 5 := by
  have hrefused : encodeSized 5 9223372036854775808 = .error .intRange := rfl
  refine ⟨by decide, hrefused, ?_⟩
  rintro ⟨item, hitem, -⟩
  cases hrefused.symm.trans hitem

end Number

end SpendScript
