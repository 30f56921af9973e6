import SpendScript.Proofs.SignatureWriting

/-! # One strict encoding for each signature

The content of a strict integer is what its number is written as (`Der.content_toNatBE`). Strict signatures of at most 73
bytes are therefore exactly the written sequences of two numbers, of any size, followed by a byte
(`Der.exists_strict?_iff`). Reading by offsets finds these and no others, and the lax reading of one gives the two
numbers back if both are below the order of the curve (`Der.inspect_exact`). -/

namespace SpendScript

/-! ### Big-endian numbers -/

namespace Bytes

theorem toNatBE_lt (bs : Bytes) : toNatBE bs < 256 ^ bs.length := by
  have hlt := toNatLE_lt bs.reverse
  rwa [List.length_reverse] at hlt

theorem ofNatBE_toNatBE (bs : Bytes) : ofNatBE bs.length (toNatBE bs) = bs := by
  have hback := ofNatLE_toNatLE bs.reverse
  rw [List.length_reverse] at hback
  rw [ofNatBE, toNatBE, hback, List.reverse_reverse]

end Bytes

namespace Der

/-! ### Strict contents -/

/-- The top bit of a strict content is clear. -/
theorem toNatBE_lt_of_isStrictContent {a : UInt8} {rest : Bytes} (h : isStrictContent (a :: rest) = true) :
    Bytes.toNatBE (a :: rest) < 128 * 256 ^ rest.length := by
  have ha : a.toNat ≤ 127 := by
    cases rest with
    | nil => exact Nat.le_of_lt_succ (UInt8.lt_iff_toNat_lt.mp (of_decide_eq_true h))
    | cons b rest =>
      simp only [isStrictContent, Bool.and_eq_true, decide_eq_true_eq] at h
      exact Nat.le_of_lt_succ (UInt8.lt_iff_toNat_lt.mp h.1)
  have hrest := Bytes.toNatBE_lt rest
  have hfirst := Nat.mul_le_mul_right (256 ^ rest.length) ha
  rw [Bytes.toNatBE_cons]
  omega

/-- A strict content of more than one byte needs them all, for its value or for the top bit. -/
theorem le_toNatBE_of_isStrictContent {a b : UInt8} {rest : Bytes} (h : isStrictContent (a :: b :: rest) = true) :
    128 * 256 ^ rest.length ≤ Bytes.toNatBE (a :: b :: rest) := by
  simp only [isStrictContent, Bool.and_eq_true, Bool.not_eq_true', Bool.and_eq_false_imp, decide_eq_false_iff_not,
    beq_iff_eq, UInt8.not_lt] at h
  rw [Bytes.toNatBE_cons, Bytes.toNatBE_cons, List.length_cons, Nat.pow_succ]
  rcases Nat.eq_zero_or_pos a.toNat with ha | ha
  · have hb : 128 ≤ b.toNat := UInt8.le_iff_toNat_le.mp (h.2 (UInt8.toNat_inj.mp ha))
    have hsecond := Nat.mul_le_mul_right (256 ^ rest.length) hb
    omega
  · have hfirst := Nat.mul_le_mul_right (256 ^ rest.length * 256) ha
    omega

theorem length_of_isStrictContent {c : Bytes} (h : isStrictContent c = true) :
    Bytes.bitLength (Bytes.toNatBE c) / 8 + 1 = c.length := by
  match c with
  | [] => cases h
  | [a] =>
    have hbits := Bytes.bitLength_le_iff.mpr ((Bytes.two_pow_eight_mul 0).symm ▸ toNatBE_lt_of_isStrictContent h)
    rw [List.length_singleton]
    omega
  | a :: b :: rest =>
    have hbits := Bytes.bitLength_le_iff.mpr
      ((Bytes.two_pow_eight_mul (rest.length + 1)).symm ▸ toNatBE_lt_of_isStrictContent h)
    have hneeded : ¬Bytes.bitLength (Bytes.toNatBE (a :: b :: rest)) ≤ 8 * rest.length + 7 := by
      rw [Bytes.bitLength_le_iff, Bytes.two_pow_eight_mul]
      exact Nat.not_lt.mpr (le_toNatBE_of_isStrictContent h)
    simp only [List.length_cons]
    omega

/-- A strict content is the one that its number is written as. -/
theorem content_toNatBE {c : Bytes} (h : isStrictContent c = true) : content (Bytes.toNatBE c) = c := by
  rw [content, length_of_isStrictContent h, Bytes.ofNatBE_toNatBE]

/-! ### Strict signatures -/

theorem eq_sequence_of_strict? {sig : Bytes} {f : Strict} (h : strict? sig = some f) :
    sig = sequence (Bytes.toNatBE f.r) (Bytes.toNatBE f.s) ++ [f.last] := by
  obtain ⟨hsize, hrStrict, hsStrict, len, rLen, sLen, hlen, hr, hs, hsig⟩ := eq_of_strict? h
  have hbody := length_integers (Bytes.toNatBE f.r) (Bytes.toNatBE f.s)
  rw [content_toNatBE hrStrict, content_toNatBE hsStrict] at hbody
  have hparts := congrArg List.length hsig
  simp only [List.length_cons, List.length_append, List.length_nil] at hparts
  have hlen' : len.toNat = f.r.length + f.s.length + 4 := by omega
  rw [sequence_append, hbody, content_toNatBE hrStrict, content_toNatBE hsStrict, ← hlen', ← hr, ← hs, UInt8.ofNat_toNat,
    UInt8.ofNat_toNat, UInt8.ofNat_toNat]
  exact hsig

theorem exists_strict?_iff {sig : Bytes} : (∃ f, strict? sig = some f) ↔
    ∃ r s last, sig = sequence r s ++ [last] ∧ sig.length ≤ 73 := by
  constructor
  · rintro ⟨f, h⟩
    exact ⟨_, _, _, eq_sequence_of_strict? h, (eq_of_strict? h).1⟩
  · rintro ⟨r, s, last, rfl, h⟩
    exact ⟨_, strict?_sequence h⟩

theorem flags_analyze_ne_zero {sig : Bytes} : (analyze sig).flags ≠ 0 ↔ ∃ f, strict? sig = some f := by
  unfold analyze
  cases strict? sig with
  | none => simp [Encoding.flags]
  | some f =>
    dsimp only
    split <;> simp [Encoding.flags]

theorem flags_low {s : Nat} : (if s ≤ halfOrder then Encoding.strictLow else .strictHigh).flags &&& 2 ≠ 0 ↔ s ≤ halfOrder := by
  split <;> simp_all [Encoding.flags]

/-- The reading by offsets never fails. It finds a strict encoding exactly in what two numbers of any size and a byte are
    written as in at most 73 bytes, and a low `s` exactly if the second number is. Such bytes are also read laxly: as the
    signature that is written as them if both numbers are below the order of the curve, and with two zeros otherwise. -/
theorem inspect_exact (sig : Bytes) : ∃ e, inspect sig = .ok e ∧
    (e.flags ≠ 0 ↔ ∃ r s last, sig = sequence r s ++ [last] ∧ sig.length ≤ 73) ∧
    ∀ (r s : Nat) (last : UInt8), sig = sequence r s ++ [last] → sig.length ≤ 73 →
      (e.flags &&& 2 ≠ 0 ↔ s ≤ halfOrder) ∧
      (r < curveOrder ∧ s < curveOrder → TxSignature.ofBytes sig = .ok ⟨r, s, ⟨last⟩⟩ ∧
        TxSignature.toBytes ⟨r, s, ⟨last⟩⟩ = .ok sig) ∧
      (¬(r < curveOrder ∧ s < curveOrder) → TxSignature.ofBytes sig = .ok ⟨0, 0, ⟨last⟩⟩) := by
  refine ⟨analyze sig, inspect_eq sig, flags_analyze_ne_zero.trans exists_strict?_iff, ?_⟩
  rintro r s last rfl hsize
  have hlow := inspect_sequence hsize
  rw [inspect_eq] at hlow
  rw [Except.ok.inj hlow, TxSignature.ofBytes_sequence hsize]
  refine ⟨flags_low, fun hrange => ⟨by rw [if_pos hrange], ?_⟩, fun hrange => by rw [if_neg hrange]⟩
  have hinRange : TxSignature.InRange ⟨r, s, ⟨last⟩⟩ :=
    ⟨⟨Int.natCast_nonneg r, Int.ofNat_lt.mpr hrange.1⟩, Int.natCast_nonneg s, Int.ofNat_lt.mpr hrange.2⟩
  exact TxSignature.toBytes_eq hinRange

/-- The numbers 128, with a zero byte before its top bit, and 0, with the type `0x41`; and the order of the curve with a
    high `s`, which is strict too but read as two zeros. -/
theorem inspect_exact_extremes :
    (∃ e, inspect [0x30, 0x07, 0x02, 0x02, 0x00, 0x80, 0x02, 0x01, 0x00, 0x41] = .ok e ∧ e.flags &&& 2 ≠ 0 ∧
      TxSignature.ofBytes [0x30, 0x07, 0x02, 0x02, 0x00, 0x80, 0x02, 0x01, 0x00, 0x41] = .ok ⟨128, 0, ⟨0x41⟩⟩ ∧
      TxSignature.toBytes ⟨128, 0, ⟨0x41⟩⟩ = .ok [0x30, 0x07, 0x02, 0x02, 0x00, 0x80, 0x02, 0x01, 0x00, 0x41]) ∧
    ∃ e, inspect (sequence curveOrder (halfOrder + 1) ++ [1]) = .ok e ∧ e.flags ≠ 0 ∧ ¬e.flags &&& 2 ≠ 0 ∧
      TxSignature.ofBytes (sequence curveOrder (halfOrder + 1) ++ [1]) = .ok ⟨0, 0, ⟨1⟩⟩ := by
  constructor
  · obtain ⟨e, he, -, hread⟩ := inspect_exact [0x30, 0x07, 0x02, 0x02, 0x00, 0x80, 0x02, 0x01, 0x00, 0x41]
    obtain ⟨hlow, hrange, -⟩ := hread 128 0 0x41 (by decide +kernel) (by decide)
    exact ⟨e, he, hlow.mpr (Nat.zero_le _), hrange (by decide)⟩
  · have hsize : (sequence curveOrder (halfOrder + 1) ++ [1]).length ≤ 73 := by decide +kernel
    obtain ⟨e, he, hstrict, hread⟩ := inspect_exact (sequence curveOrder (halfOrder + 1) ++ [1])
    obtain ⟨hlow, -, hzero⟩ := hread curveOrder (halfOrder + 1) 1 rfl hsize
    refine ⟨e, he, hstrict.mpr ⟨_, _, _, rfl, hsize⟩, fun h => ?_, hzero (by decide)⟩
    exact Nat.not_succ_le_self _ (hlow.mp h)

end Der

end SpendScript
