import Mathlib.Data.List.Flatten
import SpendScript.Proofs.Commitments
import SpendScript.Proofs.SignatureCalls

/-! # Checks for an input of a transaction

The answer to a signature for an input may be a fault: the transaction may be one that cannot be written, or the signature one
that has no encoding (`Tx.checkSignature`). As a signature check it is a truth value, which says nothing of faults. A spend of
an input of a transaction that can be written never asks for anything that is a fault, so that the check leaves none out
(`Tx.spend_checkSignature`). -/

namespace SpendScript

theorem Script.length_withoutAll_le (os : List Operation) (script : Bytes) :
    (withoutAll os script).length ≤ script.length := by
  have hkept : (ofOps ((listing script).ops.filter (· ∉ os))).length ≤ (ofOps (listing script).ops).length :=
    (List.filter_sublist.flatMap Operation.toBytes).length_le
  have hwhole := congrArg List.length (ofOps_listing script)
  rw [List.length_append] at hwhole
  unfold withoutAll
  rw [List.length_append]
  omega

theorem Machine.CodeAfter.length_le {env : Env} {m₀ : Machine} {script code : Bytes} {n : Nat}
    (h : CodeAfter env m₀ script n code) : code.length ≤ script.length := by
  cases h with
  | whole none => exact Nat.le_refl _
  | rest taken executed last split =>
    rw [← split, List.length_append]
    omega

namespace Tx
variable {tx : Tx} {code : Bytes}

theorem exists_signatureHash (htx : tx.OnWire) (hcode : code.length < 2 ^ 63) (index : Int) (h : SigHash) :
    ∃ hash, signatureHash tx index code h = .ok hash := by
  unfold signatureHash
  split
  · exact ⟨_, rfl⟩
  · split
    · exact ⟨_, rfl⟩
    · rename_i hinput houtput
      obtain ⟨i, rfl⟩ := Int.eq_ofNat_of_zero_le (Int.not_lt.mp fun hneg => hinput (.inl hneg))
      have hs : Signable tx i code h :=
        ⟨htx, by omega, fun hkind => Nat.lt_of_not_le fun hle => houtput ⟨hkind, Int.ofNat_le.mpr hle⟩, hcode⟩
      obtain ⟨bytes, hbytes⟩ := hs.exists_preimage
      rw [hbytes]
      exact ⟨_, rfl⟩

theorem checkSignature_eq (htx : tx.OnWire) (hcode : code.length < 2 ^ 63) (index : Int) (key : Bytes) {sig : TxSignature}
    (hsig : ∃ der, sig.toLowS.toDer = .ok der) :
    checkSignature tx index code key sig = .ok (sigCheck tx index code key sig) := by
  obtain ⟨hash, hhash⟩ := exists_signatureHash htx hcode index sig.sigHash
  obtain ⟨der, hder⟩ := hsig
  unfold sigCheck checkSignature
  cases Curve.Point.ofKey? key with
  | none => rfl
  | some point =>
    dsimp only
    rw [hhash, hder]
    rfl

/-- The results of the signature checks of a spend are the answers to the signatures, none of which is a fault. -/
theorem spend_checkSignature (htx : tx.OnWire) (index : Int) {limits : Limits} (hsize : limits.scriptSize < 2 ^ 63)
    (hashes : Hashes) (unlock lock : Bytes) :
    ∀ c ∈ (finalState (Machine.spend ⟨limits, some (tx.sigCheck index), hashes⟩ unlock lock { })).calls,
      checkSignature tx index c.code c.key c.sig = .ok c.result := by
  intro c hc
  obtain ⟨later, earlier, hsplit⟩ := List.append_of_mem hc
  obtain ⟨⟨-, -, hshort, -, hcommits, hasks⟩, hanswered, -, -⟩ := spend_recorded _ unlock lock c earlier ⟨later, hsplit.symm⟩
  obtain ⟨keys, sigs, bytes, -, -, -, -, hcode⟩ := hasks.operands
  have hlength : c.code.length < 2 ^ 63 := by
    have hclean := Script.length_withoutAll_le (sigs.map Push.operation)
    have hpart := hcommits.length_le
    rw [hcode]
    refine Nat.lt_of_le_of_lt (Nat.le_trans (hclean _) hpart) ?_
    dsimp only at hshort
    omega
  have hder : ∃ der, c.sig.toLowS.toDer = .ok der := by
    rw [hasks.canonical.toLowS_eq]
    exact hasks.canonical.exists_toDer
  rw [checkSignature_eq htx hlength index c.key hder]
  exact congrArg Except.ok (Option.some.inj hanswered)

end Tx

end SpendScript
