import SpendScript.Machine.Limits
import SpendScript.Proofs.LaxGrammar
import SpendScript.Proofs.Numbers
import SpendScript.Proofs.StrictDer

/-! # Signatures that are written

A signature whose numbers lie below the order of the curve is written in one way, of 9 to 73 bytes with its type. The
bytes are strict (`Der.strict?_sequence`), and also the lax reading gives the signature back
(`TxSignature.ofBytes_bytes`). A check of signatures therefore takes them for what was written, if that is canonical,
and for no signature or a fault otherwise. -/

namespace SpendScript

/-! ### The content of integers -/

namespace Bytes

theorem ofNatLE_succ_last (w n : Nat) : ofNatLE (w + 1) n = ofNatLE w n ++ [UInt8.ofNat (n / 256 ^ w)] := by
  induction w generalizing n with
  | zero => simp [ofNatLE]
  | succ w ih =>
    have hdiv : n / 256 / 256 ^ w = n / 256 ^ (w + 1) := by rw [Nat.div_div_eq_div_mul, Nat.pow_succ, Nat.mul_comm]
    rw [ofNatLE, ih, hdiv]
    rfl

theorem ofNatBE_succ (w n : Nat) : ofNatBE (w + 1) n = UInt8.ofNat (n / 256 ^ w) :: ofNatBE w n := by
  rw [ofNatBE, ofNatLE_succ_last, List.reverse_append]
  rfl

theorem two_pow_eight_mul (k : Nat) : 2 ^ (8 * k + 7) = 128 * 256 ^ k := by
  rw [Nat.pow_add, Nat.pow_mul, Nat.mul_comm]

end Bytes

namespace Der

theorem lt_of_content (n : Nat) : n < 128 * 256 ^ (Bytes.bitLength n / 8) := by
  rw [← Bytes.two_pow_eight_mul, ← Bytes.bitLength_le_iff]
  omega

theorem length_content (n : Nat) : (content n).length = Bytes.bitLength n / 8 + 1 := Bytes.length_ofNatBE _ _

theorem toNatBE_content (n : Nat) : Bytes.toNatBE (content n) = n := by
  refine Bytes.toNatBE_ofNatBE _ _ (Nat.lt_of_lt_of_le (lt_of_content n) ?_)
  rw [Nat.pow_succ, Nat.mul_comm]
  exact Nat.mul_le_mul_left _ (by decide)

/-- The first byte leaves the top bit clear, and is zero only if the second one has its top bit set. -/
theorem isStrictContent_content (n : Nat) : isStrictContent (content n) = true := by
  have hlt := lt_of_content n
  unfold content
  cases hk : Bytes.bitLength n / 8 with
  | zero =>
    rw [hk] at hlt
    have hbyte : (UInt8.ofNat (n / 256 ^ 0)).toNat < 128 := by
      rw [UInt8.toNat_ofNat', Nat.pow_zero, Nat.div_one]
      omega
    rw [Bytes.ofNatBE_succ]
    exact decide_eq_true (UInt8.lt_iff_toNat_lt.mpr hbyte)
  | succ k =>
    rw [hk] at hlt
    have hfirst : n / 256 ^ (k + 1) < 128 := Nat.div_lt_of_lt_mul (by rw [Nat.mul_comm]; exact hlt)
    have hbyte : (UInt8.ofNat (n / 256 ^ (k + 1))).toNat = n / 256 ^ (k + 1) := by
      rw [UInt8.toNat_ofNat']
      exact Nat.mod_eq_of_lt (Nat.lt_trans hfirst (by decide))
    rw [Bytes.ofNatBE_succ, Bytes.ofNatBE_succ]
    unfold isStrictContent
    rw [Bool.and_eq_true, Bool.not_eq_true', decide_eq_true_iff, UInt8.lt_iff_toNat_lt, hbyte]
    refine ⟨hfirst, ?_⟩
    by_cases hzero : UInt8.ofNat (n / 256 ^ (k + 1)) = 0
    · -- a leading zero byte is there only for the top bit of the next one
      have hsmall : n / 256 ^ (k + 1) = 0 := by
        rw [← hbyte, hzero]
        rfl
      have hhigh : 128 * 256 ^ k ≤ n := by
        rw [← Bytes.two_pow_eight_mul]
        refine Nat.not_lt.mp fun h => ?_
        have := Bytes.bitLength_le_iff.mpr h
        omega
      have hpos : 0 < 256 ^ k := Nat.pow_pos (by decide)
      have hsecond : 128 ≤ n / 256 ^ k := (Nat.le_div_iff_mul_le hpos).mpr hhigh
      have hlow : n / 256 ^ k / 256 = 0 := by rw [Nat.div_div_eq_div_mul, ← Nat.pow_succ, hsmall]
      have hbyte' : ¬UInt8.ofNat (n / 256 ^ k) < 0x80 := by
        rw [UInt8.lt_iff_toNat_lt, UInt8.toNat_ofNat']
        show ¬_ < 128
        omega
      rw [decide_eq_false hbyte', Bool.and_false]
    · rw [beq_eq_false_iff_ne.mpr hzero, Bool.false_and]

theorem length_content_le {n : Nat} (h : n < curveOrder) : (content n).length ≤ 33 := by
  have hbits : Bytes.bitLength n ≤ 256 := Bytes.bitLength_le_iff.mpr (Nat.lt_trans h (by decide))
  rw [length_content]
  omega

theorem toNat_ofNat_of_lt {k : Nat} (h : k < 128) : (UInt8.ofNat k).toNat = k := by
  rw [UInt8.toNat_ofNat']
  exact Nat.mod_eq_of_lt (Nat.lt_trans h (by decide))

/-! ### Strict reading -/

theorem sequence_append (r s : Nat) (last : UInt8) : sequence r s ++ [last] =
    0x30 :: UInt8.ofNat (integer r ++ integer s).length :: 0x02 :: UInt8.ofNat (content r).length ::
      (content r ++ 0x02 :: UInt8.ofNat (content s).length :: (content s ++ [last])) := by
  simp [sequence, integer]

theorem length_integers (r s : Nat) : (integer r ++ integer s).length = (content r).length + (content s).length + 4 := by
  simp only [integer, List.length_append, List.length_cons]
  omega

theorem length_sequence (r s : Nat) : (sequence r s).length = (content r).length + (content s).length + 6 := by
  show (integer r ++ integer s).length + 1 + 1 = _
  rw [length_integers]

theorem length_sequence_append (r s : Nat) (last : UInt8) :
    (sequence r s ++ [last]).length = (content r).length + (content s).length + 7 := by
  rw [List.length_append, length_sequence]
  rfl

theorem length_sequence_append_le {r s : Nat} (hr : r < curveOrder) (hs : s < curveOrder) (last : UInt8) :
    (sequence r s ++ [last]).length ≤ 73 := by
  have hrLen := length_content_le hr
  have hsLen := length_content_le hs
  rw [length_sequence_append]
  omega

section
variable {r s : Nat} {last : UInt8} (h : (sequence r s ++ [last]).length ≤ 73)
include h

theorem strict?_sequence : strict? (sequence r s ++ [last]) = some ⟨content r, content s, last⟩ := by
  have hsize := length_sequence_append r s last
  have hbody := length_integers r s
  rw [strict?_whole (toNat_ofNat_of_lt (by omega)) (toNat_ofNat_of_lt (by omega)) (sequence_append r s last)]
  refine if_pos ⟨rfl, ?_, h, rfl, rfl, isStrictContent_content r, isStrictContent_content s⟩
  rw [toNat_ofNat_of_lt (by omega), hbody, hsize]

theorem inspect_sequence :
    inspect (sequence r s ++ [last]) = .ok (if s ≤ halfOrder then .strictLow else .strictHigh) := by
  rw [inspect_eq, analyze, strict?_sequence h]
  dsimp only
  rw [toNatBE_content]

end

/-- What a strict signature is made of. -/
theorem eq_of_strict? {sig : Bytes} {f : Strict} (h : strict? sig = some f) :
    sig.length ≤ 73 ∧ isStrictContent f.r = true ∧ isStrictContent f.s = true ∧ ∃ len rLen sLen : UInt8,
      len.toNat + 3 = sig.length ∧ rLen.toNat = f.r.length ∧ sLen.toNat = f.s.length ∧
      sig = 0x30 :: len :: 0x02 :: rLen :: (f.r ++ 0x02 :: sLen :: (f.s ++ [f.last])) := by
  unfold strict? at h
  split at h
  · rename_i tag len rTag rLen rest
    split at h
    · rename_i sTag sLen rest' hdrop
      dsimp only at h
      split at h
      · rename_i last hlast
        split at h
        · rename_i hfields
          obtain ⟨rfl, hlen, hsize, rfl, rfl, hrStrict, hsStrict⟩ := hfields
          cases h
          have hr := congrArg List.length hdrop
          have hs := congrArg List.length hlast
          simp only [List.length_drop, List.length_cons, List.length_nil] at hr hs
          refine ⟨hsize, hrStrict, hsStrict, len, rLen, sLen, hlen, ?_, ?_, ?_⟩
          · rw [List.length_take]
            omega
          · rw [List.length_take]
            omega
          · rw [← hlast, List.take_append_drop, ← hdrop, List.take_append_drop]
        · cases h
      · cases h
    · cases h
  · cases h

/-! ### Lax reading -/

theorem length_byte {b : UInt8} {value : Nat} (h : b.toNat < 128) (hb : b.toNat = value) : Length [b] value :=
  hb ▸ .short (UInt8.lt_iff_toNat_lt.mpr h)

/-- A strict encoding is one of the lax ones. -/
theorem lax_of_strict? {sig : Bytes} {f : Strict} (h : strict? sig = some f) : Lax f.r f.s sig.dropLast := by
  obtain ⟨hsize, -, -, len, rLen, sLen, hlen, hr, hs, hsig⟩ := eq_of_strict? h
  have hparts := congrArg List.length hsig
  simp only [List.length_cons, List.length_append, List.length_nil] at hparts
  have hdrop : sig.dropLast = 0x30 :: [len] ++ 0x02 :: [rLen] ++ f.r ++ 0x02 :: [sLen] ++ f.s ++ [] := by
    have hend : sig = (0x30 :: [len] ++ 0x02 :: [rLen] ++ f.r ++ 0x02 :: [sLen] ++ f.s) ++ [f.last] := by simp [hsig]
    rw [hend, List.dropLast_concat, List.append_nil]
  rw [hdrop]
  exact .mk (length_byte (by omega) rfl) (length_byte (by omega) hr) (length_byte (by omega) hs)

theorem laxNumbers?_of_strict? {sig : Bytes} {f : Strict} (h : strict? sig = some f) :
    laxNumbers? sig.dropLast = some (Bytes.toNatBE f.r, Bytes.toNatBE f.s) :=
  laxNumbers?_eq_some.mpr ⟨f.r, f.s, lax_of_strict? h, rfl, rfl⟩

theorem decodeLax_sequence {r s : Nat} {last : UInt8} (h : (sequence r s ++ [last]).length ≤ 73) :
    decodeLax (sequence r s) = .ok (if r < curveOrder ∧ s < curveOrder then (r, s) else (0, 0)) := by
  have hnumbers := laxNumbers?_of_strict? (strict?_sequence h)
  rw [List.dropLast_concat, toNatBE_content, toNatBE_content] at hnumbers
  unfold decodeLax
  rw [hnumbers]

end Der

/-! ### Signatures in scripts -/

theorem Limits.defect_ne_some {rejected : Bool} {f : Fault} {sig : TxSignature} : defect rejected f ≠ .ok (some sig) := by
  cases rejected <;> exact fun h => nomatch h

namespace TxSignature

/-- Whether both numbers lie below the order of the curve. -/
def InRange (sig : TxSignature) : Prop := (0 ≤ sig.r ∧ sig.r < Der.curveOrder) ∧ (0 ≤ sig.s ∧ sig.s < Der.curveOrder)

instance (sig : TxSignature) : Decidable sig.InRange := inferInstanceAs (Decidable (_ ∧ _))

/-- The bytes that a signature within the range is written as. -/
def bytes (sig : TxSignature) : Bytes := Der.sequence sig.r.toNat sig.s.toNat ++ [sig.sigHash.value]

variable {sig : TxSignature}

theorem ofSignature_concat (der : Bytes) (last : UInt8) : SigHash.ofSignature (der ++ [last]) = ⟨last⟩ := by
  unfold SigHash.ofSignature
  rw [List.getLast?_concat]
  rfl

theorem ofSignature_bytes : SigHash.ofSignature sig.bytes = sig.sigHash := ofSignature_concat _ _

theorem ofBytes_sequence {r s : Nat} {last : UInt8} (h : (Der.sequence r s ++ [last]).length ≤ 73) :
    ofBytes (Der.sequence r s ++ [last]) =
      .ok (if r < Der.curveOrder ∧ s < Der.curveOrder then ⟨r, s, ⟨last⟩⟩ else ⟨0, 0, ⟨last⟩⟩) := by
  unfold ofBytes
  rw [if_neg (List.concat_ne_nil _ _), ofSignature_concat, List.dropLast_concat, Der.decodeLax_sequence h]
  by_cases hrange : r < Der.curveOrder ∧ s < Der.curveOrder
  · rw [if_pos hrange, if_pos hrange]
    rfl
  · rw [if_neg hrange, if_neg hrange]
    rfl

theorem head?_bytes : sig.bytes.head? = some 0x30 := rfl

section
variable (h : sig.InRange)
include h

theorem InRange.toNat_lt : sig.r.toNat < Der.curveOrder ∧ sig.s.toNat < Der.curveOrder := by
  obtain ⟨⟨hr, hr'⟩, hs, hs'⟩ := h
  omega

theorem toBytes_eq : sig.toBytes = .ok sig.bytes := by
  have hder : sig.toDer = .ok (Der.sequence sig.r.toNat sig.s.toNat) := if_pos h
  unfold toBytes
  rw [hder]
  rfl

theorem length_bytes : 9 ≤ sig.bytes.length ∧ sig.bytes.length ≤ 73 := by
  have hrPos := Der.length_content sig.r.toNat
  have hsPos := Der.length_content sig.s.toNat
  refine ⟨?_, Der.length_sequence_append_le h.toNat_lt.1 h.toNat_lt.2 _⟩
  rw [bytes, Der.length_sequence_append]
  omega

theorem ofBytes_bytes : ofBytes sig.bytes = .ok sig := by
  rw [bytes, ofBytes_sequence (length_bytes h).2, if_pos h.toNat_lt, Int.toNat_of_nonneg h.1.1, Int.toNat_of_nonneg h.2.1]

theorem inspect_bytes : Der.inspect sig.bytes = .ok (if isLowS sig.s then .strictLow else .strictHigh) := by
  have hs := h.2.1
  have hlow : isLowS sig.s = true ↔ sig.s.toNat ≤ Der.halfOrder := decide_eq_true_iff.trans (by omega)
  rw [bytes, Der.inspect_sequence (length_bytes h).2]
  simp only [hlow]

theorem checkSignature_bytes (l : Limits) (strict : Flags) : l.checkSignature sig.bytes strict =
    if isLowS sig.s then
      if sig.sigHash.isDefined then .ok (some sig)
      else Limits.defect (l.flags.meets strict || l.flags.has .requireStrictEncoding) (.undefinedSigHash sig.sigHash.text)
    else Limits.defect (l.flags.meets strict || l.flags.has .requireLowS) .highS := by
  have hne : sig.bytes ≠ [] := fun hnil => by simp [bytes] at hnil
  unfold Limits.checkSignature
  rw [if_neg hne, inspect_bytes h, ofSignature_bytes, ofBytes_bytes h]
  cases isLowS sig.s <;> rfl

/-- What was written is taken for the signature if it is canonical, and for none or for a fault otherwise. -/
theorem checkSignature_cases (l : Limits) (strict : Flags) :
    (sig.isCanonical = true ∧ l.checkSignature sig.bytes strict = .ok (some sig)) ∨
      (sig.isCanonical = false ∧ ∀ t, l.checkSignature sig.bytes strict ≠ .ok (some t)) := by
  rw [checkSignature_bytes h]
  unfold isCanonical
  cases isLowS sig.s with
  | false => exact Or.inr ⟨rfl, fun _ => Limits.defect_ne_some⟩
  | true =>
    cases sig.sigHash.isDefined with
    | false => exact Or.inr ⟨rfl, fun _ => Limits.defect_ne_some⟩
    | true => exact Or.inl ⟨rfl, rfl⟩

end

end TxSignature

end SpendScript
