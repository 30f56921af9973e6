import SpendScript.Proofs.Deletion
import SpendScript.Proofs.ShortestPush
import SpendScript.Proofs.SignatureChecks
import SpendScript.Proofs.SignatureWriting

/-! # Checks of written signatures

Where a signature check finds what was written for a signature, it succeeds exactly if the signature is canonical and
verifies, under all flags: what is not canonical is a fault or a false result. A multiple check also needs every
signature to be there (`matchAll_bytes_iff`). -/

namespace SpendScript

open Machine

/-! ### One signature -/

theorem checkPublicKey_bytes (l : Limits) (key : PublicKey) : l.checkPublicKey key.bytes = .ok () :=
  if_neg fun h => h.2 key.valid

theorem cleanCode_eq {sig : Bytes} (h : sig.length < 2 ^ 32) (code : Bytes) :
    Limits.cleanCode sig code = .ok (Script.without (Push.operation sig) code) := by
  unfold Limits.cleanCode Push.item
  rw [if_pos h, ← Push.toBytes_operation h, ← Script.delete_toBytes (Push.isDistinct_operation h)]
  rfl

section
variable {flags strict : Flags} {check : SigCheck} {hashes : Hashes} {code : Bytes} {sig : TxSignature} {key : PublicKey}
  {m : Machine}

theorem checkOne_canonical (h : sig.InRange) (hc : sig.isCanonical = true) (flags strict : Flags) (check : SigCheck)
    (code : Bytes) (key : PublicKey) (m : Machine) : ∃ calls,
    m.checkOne ⟨{ flags }, some check, hashes⟩ strict code sig.bytes key.bytes =
      .ok (check code key.bytes sig, { m with calls := calls }) := by
  rcases TxSignature.checkSignature_cases h { flags } strict with ⟨-, hsig⟩ | ⟨hc', -⟩
  · exact ⟨_, checkOne_eq_ok.mpr ⟨checkPublicKey_bytes _ key, Or.inr ⟨sig, check, hsig, rfl, rfl, rfl⟩⟩⟩
  · exact absurd (hc'.symm.trans hc) Bool.false_ne_true

theorem checkOne_bytes_iff (h : sig.InRange) (flags strict : Flags) (m : Machine) :
    (∃ m', m.checkOne ⟨{ flags }, some check, hashes⟩ strict code sig.bytes key.bytes = .ok (true, m')) ↔
      sig.isCanonical = true ∧ check code key.bytes sig = true := by
  constructor
  · rintro ⟨m', hone⟩
    obtain ⟨-, ⟨-, hfalse, -⟩ | ⟨t, check', hsig, hcheck, hgood, -⟩⟩ := checkOne_eq_ok.mp hone
    · cases hfalse
    · cases hcheck
      rcases TxSignature.checkSignature_cases h { flags } strict with ⟨hc, hsig'⟩ | ⟨-, hnone⟩
      · cases hsig.symm.trans hsig'
        exact ⟨hc, hgood.symm⟩
      · exact absurd hsig (hnone t)
  · rintro ⟨hc, hgood⟩
    obtain ⟨calls, hone⟩ := checkOne_canonical h hc flags strict check code key m
    rw [hgood] at hone
    exact ⟨_, hone⟩

/-- A single check of a written signature, which leaves nothing but its result. -/
theorem checkSig_bytes_iff (h : sig.InRange) (hstack : m.stack = [key.bytes, sig.bytes]) (flags : Flags) (check : SigCheck)
    (hashes : Hashes) (s : List Bytes) :
    (∃ m', m.checkSig ⟨{ flags }, some check, hashes⟩ = .ok m' ∧ m'.stack = s ∧ Number.isTrue (s.headD []) = true) ↔
      s = [[1]] ∧ sig.isCanonical = true ∧
        check (Script.without (Push.operation sig.bytes) m.code) key.bytes sig = true := by
  have hlen : sig.bytes.length < 2 ^ 32 := Nat.lt_of_le_of_lt (TxSignature.length_bytes h).2 (by decide)
  constructor
  · rintro ⟨m', hcheck, rfl, htrue⟩
    obtain ⟨key', sig', rest, code, good, m₁, hstack', hcode, hone, rfl⟩ := checkSig_eq_ok.mp hcheck
    cases hstack.symm.trans hstack'
    cases (cleanCode_eq hlen m.code).symm.trans hcode
    have hgood : good = true := (Number.isTrue_ofBool good).symm.trans htrue
    subst hgood
    exact ⟨rfl, (checkOne_bytes_iff h flags _ m).mp ⟨m₁, hone⟩⟩
  · rintro ⟨rfl, hsig⟩
    obtain ⟨m₁, hone⟩ := (checkOne_bytes_iff h flags (.single .requireStrictDer) m).mpr hsig
    exact ⟨_, checkSig_eq_ok.mpr ⟨_, _, [], _, true, m₁, hstack, cleanCode_eq hlen m.code, hone, rfl⟩, rfl, rfl⟩

theorem not_checkOne_nil {key : Bytes} {m' : Machine} :
    m.checkOne ⟨{ flags }, some check, hashes⟩ strict code [] key ≠ .ok (true, m') := by
  intro hone
  obtain ⟨-, ⟨-, hfalse, -⟩ | ⟨t, _, hsig, -⟩⟩ := checkOne_eq_ok.mp hone
  · cases hfalse
  · cases hsig

end

/-! ### Several signatures -/

/-- What a check says to the bytes of a signature; false if they are no signature. -/
def SigCheck.answer (check : SigCheck) (code sig key : Bytes) : Bool :=
  ((TxSignature.ofBytes sig).toOption.map (check code key)).getD false

theorem SigCheck.answer_bytes {sig : TxSignature} (h : sig.InRange) (check : SigCheck) (code key : Bytes) :
    check.answer code sig.bytes key = check code key sig := by
  unfold answer
  rw [TxSignature.ofBytes_bytes h]
  rfl

section
variable {flags : Flags} {check : SigCheck} {hashes : Hashes} {code : Bytes} {sigs : List TxSignature}
  {keys : List PublicKey} {m : Machine}

/-- The scan of canonical signatures, which goes from the last key to the first. -/
theorem matchAll_canonical (hrange : ∀ sig ∈ sigs, sig.InRange) (hcanonical : ∀ sig ∈ sigs, sig.isCanonical = true)
    (flags : Flags) (check : SigCheck) (code : Bytes) (keys : List PublicKey) (m : Machine) : ∃ good calls,
    matchAll ⟨{ flags }, some check, hashes⟩ code (sigs.map TxSignature.bytes).reverse (keys.map PublicKey.bytes).reverse m =
        .ok (good, { m with calls := calls }) ∧
      (good = true ↔ Assigned (fun sig key => check code key.bytes sig = true) sigs keys) := by
  have hanswer : ∀ sig ∈ sigs, ∀ key, check.answer code sig.bytes key = check code key sig := fun sig hsig key =>
    SigCheck.answer_bytes (hrange sig hsig) check code key
  have hone : ∀ b ∈ (sigs.map TxSignature.bytes).reverse, ∀ k ∈ (keys.map PublicKey.bytes).reverse, ∀ m : Machine, ∃ calls,
      m.checkOne ⟨{ flags }, some check, hashes⟩ (.single .requireStrictDerMultisig) code b k =
        .ok (check.answer code b k, { m with calls := calls }) := by
    intro b hb k hk m
    obtain ⟨sig, hsig, rfl⟩ := List.mem_map.mp (List.mem_reverse.mp hb)
    obtain ⟨key, -, rfl⟩ := List.mem_map.mp (List.mem_reverse.mp hk)
    rw [hanswer sig hsig]
    exact checkOne_canonical (hrange sig hsig) (hcanonical sig hsig) flags _ check code key m
  obtain ⟨good, calls, hscan, hgood⟩ := matchAll_decides hone (m := m)
  refine ⟨good, calls, hscan, hgood.trans (assigned_reverse.trans (assigned_map.trans ⟨fun h => ?_, fun h => ?_⟩))⟩
  · exact h.mono fun sig hsig key hp => (hanswer sig hsig key.bytes).symm.trans hp
  · exact h.mono fun sig hsig key hp => (hanswer sig hsig key.bytes).trans hp

/-- A scan succeeds only if no signature is missing and all are canonical. -/
theorem matchAll_bytes_iff (hrange : ∀ sig ∈ sigs, sig.InRange) (missing : Nat) :
    (∃ m', matchAll ⟨{ flags }, some check, hashes⟩ code (List.replicate missing [] ++ (sigs.map TxSignature.bytes).reverse)
        (keys.map PublicKey.bytes).reverse m = .ok (true, m')) ↔
      missing = 0 ∧ (∀ sig ∈ sigs, sig.isCanonical = true) ∧
        Assigned (fun sig key => check code key.bytes sig = true) sigs keys := by
  constructor
  · rintro ⟨m', hscan⟩
    have hmissing : missing = 0 := by
      refine Nat.eq_zero_of_not_pos fun hpos => ?_
      have hmem : [] ∈ List.replicate missing [] ++ (sigs.map TxSignature.bytes).reverse :=
        List.mem_append_left _ (List.mem_replicate.mpr ⟨Nat.pos_iff_ne_zero.mp hpos, rfl⟩)
      obtain ⟨key, -, hanswer⟩ := answers_of_matchAll hscan hmem
      obtain ⟨_, hone⟩ := hanswer m
      exact not_checkOne_nil hone
    subst hmissing
    have hcanonical : ∀ sig ∈ sigs, sig.isCanonical = true := by
      intro sig hsig
      have hmem : sig.bytes ∈ List.replicate 0 [] ++ (sigs.map TxSignature.bytes).reverse :=
        List.mem_reverse.mpr (List.mem_map_of_mem hsig)
      obtain ⟨key, hkey, hanswer⟩ := answers_of_matchAll hscan hmem
      obtain ⟨key, -, rfl⟩ := List.mem_map.mp (List.mem_reverse.mp hkey)
      exact ((checkOne_bytes_iff (hrange sig hsig) flags _ m).mp (hanswer m)).1
    obtain ⟨good, calls, hscan', hgood⟩ := matchAll_canonical hrange hcanonical flags check code keys m
    cases hscan.symm.trans hscan'
    exact ⟨rfl, hcanonical, hgood.mp rfl⟩
  · rintro ⟨rfl, hcanonical, hassigned⟩
    obtain ⟨good, calls, hscan, hgood⟩ := matchAll_canonical hrange hcanonical flags check code keys m
    rw [hgood.mpr hassigned] at hscan
    exact ⟨_, hscan⟩

end

end SpendScript
