import SpendScript.Proofs.SignatureWriting

/-! # Signatures that are read back

Writing a signature fails exactly if one of its numbers is out of range. What is written is read back laxly, and in the
canonical reading exactly if the signature is canonical (`TxSignature.ofBytesCanonical_bytes`). Of a signature and the
one with the complement of its `s` at least one has a low `s`, which `TxSignature.toLowS` chooses; with a defined type
it is canonical (`TxSignature.toBytes_roundTrip`). -/

namespace SpendScript

namespace Der

/-- The order is odd, so that the complement of the least high `s` is the greatest low one. -/
theorem curveOrder_eq : curveOrder = 2 * halfOrder + 1 := by decide

end Der

namespace TxSignature
variable {sig : TxSignature}

/-! ### The canonical reading -/

theorem toBytes_eq_error : sig.toBytes = .error .signatureRange ↔ ¬sig.InRange := by
  constructor
  · intro h hrange
    cases h.symm.trans (toBytes_eq hrange)
  · intro h
    have hder : sig.toDer = .error .signatureRange := if_neg h
    simp [toBytes, hder, bind, Except.bind]

section
variable (h : sig.InRange)
include h

theorem ofBytesCanonical_bytes : ofBytesCanonical sig.bytes =
    if isLowS sig.s then
      if sig.sigHash.isDefined then .ok sig else .error (.undefinedSigHash sig.sigHash.text)
    else .error .highS := by
  unfold ofBytesCanonical
  rw [inspect_bytes h, ofSignature_bytes, ofBytes_bytes h]
  cases isLowS sig.s <;> rfl

theorem ofBytesCanonical_of_isCanonical (hc : sig.isCanonical = true) : ofBytesCanonical sig.bytes = .ok sig := by
  obtain ⟨hlow, hdefined⟩ := (Bool.and_eq_true _ _).mp hc
  rw [ofBytesCanonical_bytes h, if_pos hlow, if_pos hdefined]

theorem ofBytesCanonical_of_not_isCanonical (hc : sig.isCanonical = false) :
    ∃ f, ofBytesCanonical sig.bytes = .error f ∧ f.faultClass = .nonCanonicalSignature := by
  rw [ofBytesCanonical_bytes h]
  cases hlow : isLowS sig.s with
  | false => exact ⟨_, rfl, rfl⟩
  | true =>
    have hdefined : sig.sigHash.isDefined = false := by simpa [isCanonical, hlow] using hc
    rw [hdefined]
    exact ⟨_, rfl, rfl⟩

theorem ofBytesCanonical_eq_ok : ofBytesCanonical sig.bytes = .ok sig ↔ sig.isCanonical = true := by
  refine ⟨fun hread => ?_, ofBytesCanonical_of_isCanonical h⟩
  cases hc : sig.isCanonical with
  | true => rfl
  | false =>
    obtain ⟨f, hf, -⟩ := ofBytesCanonical_of_not_isCanonical h hc
    cases hf.symm.trans hread

end

/-! ### The low `s` -/

theorem toLowS_of_le (h : sig.s ≤ Der.halfOrder) : sig.toLowS = sig := if_pos (decide_eq_true h)

/-- The signature itself or, if its `s` is high, the one with the complement of it. -/
theorem toLowS_cases (sig : TxSignature) : (sig.s ≤ Der.halfOrder ∧ sig.toLowS = sig) ∨
    (Der.halfOrder < sig.s ∧ sig.toLowS = { sig with s := Der.curveOrder - sig.s }) := by
  by_cases hlow : sig.s ≤ Der.halfOrder
  · exact Or.inl ⟨hlow, toLowS_of_le hlow⟩
  · exact Or.inr ⟨Int.not_le.mp hlow, if_neg fun h => hlow (of_decide_eq_true h)⟩

theorem s_toLowS_le (sig : TxSignature) : sig.toLowS.s ≤ Der.halfOrder := by
  have horder := Der.curveOrder_eq
  rcases toLowS_cases sig with ⟨hlow, h⟩ | ⟨hhigh, h⟩ <;> rw [h]
  · exact hlow
  · show Der.curveOrder - sig.s ≤ Der.halfOrder
    omega

theorem InRange.toLowS (hrange : sig.InRange) : sig.toLowS.InRange := by
  obtain ⟨hr, hs, hs'⟩ := hrange
  rcases toLowS_cases sig with ⟨-, h⟩ | ⟨hhigh, h⟩ <;> rw [h]
  · exact ⟨hr, hs, hs'⟩
  · refine ⟨hr, ?_⟩
    show 0 ≤ (Der.curveOrder : Int) - sig.s ∧ (Der.curveOrder : Int) - sig.s < Der.curveOrder
    omega

theorem isCanonical_toLowS (h : sig.sigHash.isDefined = true) : sig.toLowS.isCanonical = true := by
  have hlow : isLowS sig.toLowS.s = true := decide_eq_true (s_toLowS_le sig)
  have hdefined : sig.toLowS.sigHash.isDefined = true := by
    rcases toLowS_cases sig with ⟨-, hsame⟩ | ⟨-, hother⟩
    · rw [hsame]
      exact h
    · rw [hother]
      exact h
  rw [isCanonical, hlow, hdefined]
  rfl

/-- Writing a signature fails if and only if one of its numbers is not below the order of the curve. What is written has 9 to
    73 bytes and is read back, in the canonical reading if and only if the signature is canonical. The signature with a low
    `s` has the same `r` and type and the same `s` or its complement, does not change again, and is read back canonically if
    its type is defined. -/
theorem toBytes_roundTrip (sig : TxSignature) :
    (sig.toBytes = .error .signatureRange ↔ ¬sig.InRange) ∧ Fault.signatureRange.faultClass = .invalidSignature ∧
    (sig.InRange → ∃ bytes, sig.toBytes = .ok bytes ∧ (9 ≤ bytes.length ∧ bytes.length ≤ 73) ∧ ofBytes bytes = .ok sig ∧
      (ofBytesCanonical bytes = .ok sig ↔ sig.isCanonical = true) ∧
      (sig.isCanonical = false → ∃ f, ofBytesCanonical bytes = .error f ∧ f.faultClass = .nonCanonicalSignature)) ∧
    (sig.toLowS.toLowS = sig.toLowS ∧ sig.toLowS.s ≤ Der.halfOrder ∧ sig.toLowS.r = sig.r ∧
      sig.toLowS.sigHash = sig.sigHash ∧ (sig.toLowS.s = sig.s ∨ sig.toLowS.s = Der.curveOrder - sig.s)) ∧
    (sig.InRange → sig.sigHash.isDefined = true → ∃ bytes, sig.toLowS.toBytes = .ok bytes ∧
      ofBytesCanonical bytes = .ok sig.toLowS) := by
  refine ⟨toBytes_eq_error, rfl, fun hrange => ?_, ⟨toLowS_of_le (s_toLowS_le sig), s_toLowS_le sig, ?_⟩,
    fun hrange hdefined => ?_⟩
  · exact ⟨sig.bytes, toBytes_eq hrange, length_bytes hrange, ofBytes_bytes hrange, ofBytesCanonical_eq_ok hrange,
      ofBytesCanonical_of_not_isCanonical hrange⟩
  · rcases toLowS_cases sig with ⟨-, hsame⟩ | ⟨-, hother⟩
    · rw [hsame]
      exact ⟨rfl, rfl, Or.inl rfl⟩
    · rw [hother]
      exact ⟨rfl, rfl, Or.inr rfl⟩
  · exact ⟨_, toBytes_eq hrange.toLowS, ofBytesCanonical_of_isCanonical hrange.toLowS (isCanonical_toLowS hdefined)⟩

/-- The greatest `r` with the least high `s`: it is read back, but not canonically, and the signature with the low `s` is. -/
theorem toBytes_roundTrip_high :
    InRange ⟨Der.curveOrder - 1, Der.halfOrder + 1, .all⟩ ∧
    (∃ bytes, toBytes ⟨Der.curveOrder - 1, Der.halfOrder + 1, .all⟩ = .ok bytes ∧
      ofBytes bytes = .ok ⟨Der.curveOrder - 1, Der.halfOrder + 1, .all⟩ ∧
      ∃ f, ofBytesCanonical bytes = .error f ∧ f.faultClass = .nonCanonicalSignature) ∧
    ∃ bytes, toBytes ⟨Der.curveOrder - 1, Der.halfOrder, .all⟩ = .ok bytes ∧
      ofBytesCanonical bytes = .ok ⟨Der.curveOrder - 1, Der.halfOrder, .all⟩ := by
  have hrange : InRange ⟨Der.curveOrder - 1, Der.halfOrder + 1, .all⟩ := by decide
  have hlow : toLowS ⟨Der.curveOrder - 1, Der.halfOrder + 1, .all⟩ = ⟨Der.curveOrder - 1, Der.halfOrder, .all⟩ := by decide
  obtain ⟨-, -, hwritten, -, hlowered⟩ := toBytes_roundTrip ⟨Der.curveOrder - 1, Der.halfOrder + 1, .all⟩
  obtain ⟨bytes, hbytes, -, hread, -, hrefused⟩ := hwritten hrange
  rw [hlow] at hlowered
  exact ⟨hrange, ⟨bytes, hbytes, hread, hrefused (by decide)⟩, hlowered hrange (by decide)⟩

end TxSignature

end SpendScript
