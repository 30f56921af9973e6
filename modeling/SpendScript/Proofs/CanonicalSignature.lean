import SpendScript.Proofs.SignatureRoundTrip
import SpendScript.Proofs.Outcome

/-! # Canonical signatures

A strict encoding with a low `s` is read laxly as a signature with a low `s` (`Der.decodeLax_of_strictLow`), also where its
`r` is out of range and both numbers are read as zero. A signature that passes the check of its encoding is therefore
canonical (`Limits.canonical_of_checkSignature`). -/

namespace SpendScript

namespace Der

theorem strict?_of_analyze {sig : Bytes} (h : analyze sig = .strictLow) :
    ∃ f, strict? sig = some f ∧ Bytes.toNatBE f.s ≤ halfOrder := by
  unfold analyze at h
  split at h
  · cases h
  · rename_i f hstrict
    split at h
    · exact ⟨f, hstrict, ‹_›⟩
    · cases h

/-- The numbers of a strict signature with a low `s`, whether or not its `r` is below the order. -/
theorem decodeLax_of_strictLow {sig : Bytes} {r s : Nat} (h : analyze sig = .strictLow)
    (hlax : decodeLax sig.dropLast = .ok (r, s)) : r < curveOrder ∧ s ≤ halfOrder := by
  obtain ⟨f, hstrict, hlow⟩ := strict?_of_analyze h
  unfold decodeLax at hlax
  rw [laxNumbers?_of_strict? hstrict] at hlax
  by_cases hrange : Bytes.toNatBE f.r < curveOrder ∧ Bytes.toNatBE f.s < curveOrder
  · simp only [hrange, and_self, if_true] at hlax
    cases hlax
    exact ⟨hrange.1, hlow⟩
  · simp only [hrange, if_false] at hlax
    cases hlax
    exact ⟨by decide, Nat.zero_le _⟩

end Der

namespace TxSignature

/-- What is asked of a signature before it is put to a check. -/
structure Canonical (sig : TxSignature) : Prop where
  r_range : 0 ≤ sig.r ∧ sig.r < Der.curveOrder
  s_range : 0 ≤ sig.s ∧ sig.s ≤ Der.halfOrder
  defined : sig.sigHash.isDefined = true

variable {sig : TxSignature}

theorem Canonical.toLowS_eq (h : sig.Canonical) : sig.toLowS = sig := toLowS_of_le h.s_range.2

theorem Canonical.exists_toDer (h : sig.Canonical) : ∃ der, sig.toDer = .ok der := by
  have hhalf : (Der.halfOrder : Int) < Der.curveOrder := by decide
  exact ⟨_, if_pos ⟨h.r_range, h.s_range.1, Int.lt_of_le_of_lt h.s_range.2 hhalf⟩⟩

end TxSignature

namespace Limits

theorem canonical_of_checkSignature {l : Limits} {bytes : Bytes} {strict : Flags} {sig : TxSignature}
    (h : l.checkSignature bytes strict = .ok (some sig)) : TxSignature.ofBytes bytes = .ok sig ∧ sig.Canonical := by
  unfold checkSignature at h
  split at h
  · cases h
  · rename_i hne
    rw [Der.inspect_eq] at h
    obtain ⟨encoding, hencoding, hsig⟩ := bind_eq_ok.mp h
    cases hencoding
    split at hsig
    · exact absurd hsig defect_ne_some
    · exact absurd hsig defect_ne_some
    · rename_i hlow
      dsimp only at hsig
      split at hsig
      · rename_i hdefined
        obtain ⟨txSig, hread, hsome⟩ := map_eq_ok.mp hsig
        cases hsome
        refine ⟨hread, ?_⟩
        unfold TxSignature.ofBytes at hread
        rw [if_neg hne] at hread
        obtain ⟨⟨r, s⟩, hlax, rfl⟩ := map_eq_ok.mp hread
        obtain ⟨hr, hs⟩ := Der.decodeLax_of_strictLow hlow hlax
        exact ⟨⟨Int.natCast_nonneg r, Int.ofNat_lt.mpr hr⟩, ⟨Int.natCast_nonneg s, Int.ofNat_le.mpr hs⟩, hdefined⟩
      · exact absurd hsig defect_ne_some

end Limits

end SpendScript
