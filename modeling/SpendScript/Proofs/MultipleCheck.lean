import SpendScript.Proofs.CanonicalSignature
import SpendScript.Proofs.ScriptCode
import SpendScript.Proofs.StrictEncoding

/-! # Multiple checks

A multiple check that finds its operands on the stack and stays within the limits comes to an end if none of its single
checks fails (`MultipleCheck.eq_ok_iff`), as none does where no flag asks for it (`exists_answers`). However it does, it
says whether the signatures can be assigned to keys in order, and puts each key to one check at most
(`checkMultiSig_complete`). -/

namespace SpendScript

open Machine

/-! ### The checks that are made -/

section
variable {ε σ : Type} {check : Bytes → Bytes → σ → Except ε (Bool × σ)} {sigs keys : List Bytes} {s s' : σ}

/-- A check that also notes which signature was checked against which key, in the order of the checks. -/
def noting (check : Bytes → Bytes → σ → Except ε (Bool × σ)) (sig key : Bytes) (s : σ × List (Bytes × Bytes)) :
    Except ε (Bool × σ × List (Bytes × Bytes)) :=
  (check sig key s.1).map fun r => (r.1, r.2, s.2 ++ [(sig, key)])

/-- A scan puts the keys to its checks one after another. -/
theorem scan_noting {good : Bool} (h : scan check sigs keys s = .ok (good, s')) (noted : List (Bytes × Bytes)) :
    ∃ tried, scan (noting check) sigs keys (s, noted) = .ok (good, s', noted ++ tried) ∧
      tried.map Prod.snd <+: keys := by
  fun_induction scan check sigs keys s generalizing noted with
  | case1 keys s =>
    cases h
    exact ⟨[], by simp [scan], List.nil_prefix⟩
  | case2 sig sigs s =>
    cases h
    exact ⟨[], by simp [scan], List.nil_prefix⟩
  | case3 sig sigs key keys s hfew =>
    cases h
    exact ⟨[], by simp [scan, hfew], List.nil_prefix⟩
  | case4 sig sigs key keys s hfew ih =>
    obtain ⟨⟨answer, s₁⟩, hone, h⟩ := bind_eq_ok.mp h
    obtain ⟨tried, hscan, hkeys⟩ := ih (answer, s₁) h (noted ++ [(sig, key)])
    refine ⟨(sig, key) :: tried, ?_, List.cons_prefix_cons.mpr ⟨rfl, hkeys⟩⟩
    have hnoted : noting check sig key (s, noted) = .ok (answer, s₁, noted ++ [(sig, key)]) := by
      unfold noting
      rw [hone]
      rfl
    rw [scan, if_neg hfew, hnoted]
    refine hscan.trans ?_
    rw [List.append_assoc]
    rfl

end

/-! ### Checks that never fail -/

theorem TxSignature.exists_ofBytes {sig : Bytes} (h : Der.analyze sig = .strictLow) :
    ∃ txSig, ofBytes sig = .ok txSig := by
  obtain ⟨f, hstrict, -⟩ := Der.strict?_of_analyze h
  obtain ⟨r, s, last, rfl, hsize⟩ := Der.exists_strict?_iff.mp ⟨f, hstrict⟩
  exact ⟨_, ofBytes_sequence hsize⟩

theorem Limits.exists_checkSignature {l : Limits} {strict : Flags} (hstrict : l.flags.meets strict = false)
    (hlow : l.flags.has .requireLowS = false) (hencoding : l.flags.has .requireStrictEncoding = false) (sig : Bytes) :
    ∃ parsed, l.checkSignature sig strict = .ok parsed := by
  unfold checkSignature
  rw [Der.inspect_eq, hstrict, hlow, hencoding]
  split
  · exact ⟨none, rfl⟩
  · cases hanalyze : Der.analyze sig with
    | loose | strictHigh => exact ⟨none, rfl⟩
    | strictLow =>
      obtain ⟨txSig, hread⟩ := TxSignature.exists_ofBytes hanalyze
      refine ⟨if (SigHash.ofSignature sig).isDefined then some txSig else none, ?_⟩
      simp only [bind, Except.bind, hread]
      split <;> rfl

/-- Without the three flags that reject signatures and keys every single check has an answer. -/
theorem exists_answers {env : Env} {check : SigCheck} (hcheck : env.sigCheck = some check)
    (hflags : ∀ f ∈ [Flag.requireStrictDerMultisig, .requireLowS, .requireStrictEncoding], env.limits.flags.has f = false)
    (code sig key : Bytes) : ∃ good, Answers env code sig key good := by
  simp only [List.forall_mem_cons] at hflags
  obtain ⟨hder, hlow, hencoding, -⟩ := hflags
  have hkey : env.limits.checkPublicKey key = .ok () := if_neg fun h => Bool.false_ne_true (hencoding.symm.trans h.1)
  obtain ⟨parsed, hparsed⟩ := Limits.exists_checkSignature (l := env.limits) ((Flags.meets_single _ _).trans hder) hlow
    hencoding sig
  cases parsed with
  | none => exact ⟨false, fun m => ⟨m, checkOne_eq_ok.mpr ⟨hkey, Or.inl ⟨hparsed, rfl, rfl⟩⟩⟩⟩
  | some txSig =>
    exact ⟨check code key txSig,
      fun m => ⟨_, checkOne_eq_ok.mpr ⟨hkey, Or.inr ⟨txSig, check, hparsed, hcheck, rfl, rfl⟩⟩⟩⟩

/-! ### Operands -/

/-- The operands of a multiple check, signatures and keys in the order in which they were pushed. -/
structure MultipleCheck where
  dummy : Bytes
  sigs : List Bytes
  sigItem : Bytes
  keys : List Bytes
  keyItem : Bytes
  decode_sigItem : Number.decode sigItem = sigs.length
  decode_keyItem : Number.decode keyItem = keys.length
  sigs_le_keys : sigs.length ≤ keys.length

namespace MultipleCheck

/-- The stack with the operands on top of some items. -/
def stack (q : MultipleCheck) (base : List Bytes) : List Bytes :=
  operands q.keyItem q.sigItem q.dummy q.keys.reverse q.sigs.reverse base

/-- The script code that the signatures are checked with: without the shortest pushes of any of them. -/
def code (q : MultipleCheck) (m : Machine) : Bytes := Script.withoutAll (q.sigs.map Push.operation) m.code

/-- What a multiple check asks for apart from its single checks. -/
structure Admitted (q : MultipleCheck) (env : Env) (m : Machine) : Prop where
  keyCount : env.limits.number q.keyItem = .ok q.keys.length
  keys_le : q.keys.length ≤ env.limits.keysPerMultisig
  opCount_le : m.opCount + q.keys.length ≤ env.limits.opsPerScript
  sigCount : env.limits.number q.sigItem = .ok q.sigs.length
  length_sigs : ∀ sig ∈ q.sigs, sig.length < 2 ^ 32
  nullDummy : env.limits.checkNullDummy q.dummy = .ok ()

variable {q : MultipleCheck} {base : List Bytes} {env : Env} {m m' : Machine}

theorem eq_ok_iff (hstack : m.stack = q.stack base) : m.checkMultiSig env = .ok m' ↔ q.Admitted env m ∧ ∃ good m₁,
    matchAll env (q.code m) q.sigs.reverse q.keys.reverse { m with opCount := m.opCount + q.keys.length } = .ok (good, m₁) ∧
      m' = { m₁ with stack := Number.ofBool good :: base } := by
  rw [checkMultiSig_eq_ok]
  constructor
  · rintro ⟨keyItem, sigItem, dummy, keys, sigs, rest, code, good, m₁, hstack', hkeyCount, hkeys, hops, hsigCount, -, hcode,
      hscan, hdummy, rfl⟩
    have hkeys' : q.keyItem = keyItem → q.keys.reverse.length = keys.length := by
      rintro rfl
      have hlen := (number_eq_ok.mp hkeyCount).2.2
      rw [q.decode_keyItem, Int.ofNat_inj] at hlen
      rw [List.length_reverse, hlen]
    have hsigs' : q.sigItem = sigItem → q.sigs.reverse.length = sigs.length := by
      rintro rfl
      have hlen := (number_eq_ok.mp hsigCount).2.2
      rw [q.decode_sigItem, Int.ofNat_inj] at hlen
      rw [List.length_reverse, hlen]
    obtain ⟨rfl, rfl, rfl, rfl, rfl, rfl⟩ := operands_inj (hstack.symm.trans hstack') hkeys' hsigs'
    rw [List.reverse_reverse, foldlM_cleanCode_eq_ok] at hcode
    obtain ⟨hlen, rfl⟩ := hcode
    rw [List.length_reverse] at hkeyCount hkeys hops hsigCount hscan
    exact ⟨⟨hkeyCount, hkeys, hops, hsigCount, hlen, hdummy⟩, good, m₁, hscan, rfl⟩
  · rintro ⟨h, good, m₁, hscan, rfl⟩
    have hcode : q.sigs.reverse.reverse.foldlM (fun code sig => Limits.cleanCode sig code) m.code = .ok (q.code m) := by
      rw [List.reverse_reverse, foldlM_cleanCode_eq_ok]
      exact ⟨h.length_sigs, rfl⟩
    refine ⟨q.keyItem, q.sigItem, q.dummy, q.keys.reverse, q.sigs.reverse, base, q.code m, good, m₁, hstack, ?_⟩
    rw [List.length_reverse, List.length_reverse]
    exact ⟨h.keyCount, h.keys_le, h.opCount_le, h.sigCount, q.sigs_le_keys, hcode, hscan, h.nullDummy, rfl⟩

end MultipleCheck

/-- A multiple check on operands that are on the stack. When it comes to an end, its result stands in their place and says
    whether each signature can be assigned a key that it goes with, later signatures later keys; and its scan, made with
    checks that are noted, has put keys to them one after another from the last on, so at most as many as there are. It does
    come to an end, within the limits, if no single check of its signatures and keys fails, and without three flags none
    does. -/
theorem checkMultiSig_complete (q : MultipleCheck) (base : List Bytes) (env : Env) (m : Machine)
    (hstack : m.stack = q.stack base) :
    (∀ m', m.checkMultiSig env = .ok m' → ∃ good calls tried,
      m' = { m with stack := Number.ofBool good :: base, opCount := m.opCount + q.keys.length, calls := calls } ∧
      (good = true ↔ Assigned (fun sig key => Answers env (q.code m) sig key true) q.sigs q.keys) ∧
      scan (noting (checkOne env (.single .requireStrictDerMultisig) (q.code m))) q.sigs.reverse q.keys.reverse
          ({ m with opCount := m.opCount + q.keys.length }, []) =
        .ok (good, { m with opCount := m.opCount + q.keys.length, calls := calls }, tried) ∧
      tried.map Prod.snd <+: q.keys.reverse ∧ tried.length ≤ q.keys.length) ∧
    ((∀ sig ∈ q.sigs, ∀ key ∈ q.keys, ∃ good, Answers env (q.code m) sig key good) →
      ((∃ m', m.checkMultiSig env = .ok m') ↔ q.Admitted env m)) ∧
    (env.sigCheck.isSome = true →
      (∀ f ∈ [Flag.requireStrictDerMultisig, .requireLowS, .requireStrictEncoding], env.limits.flags.has f = false) →
      ∀ code sig key, ∃ good, Answers env code sig key good) ∧
    ∀ (code : Bytes) (sigs keys : List Bytes) (m : Machine), matchAll env code sigs keys m =
      scan (checkOne env (.single .requireStrictDerMultisig) code) sigs keys m := by
  refine ⟨fun m' h => ?_, fun hanswers => ⟨?_, fun h => ?_⟩, fun hcheck hflags => ?_, fun _ _ _ _ => matchAll_eq_scan⟩
  · obtain ⟨-, good, m₁, hmatch, rfl⟩ := (MultipleCheck.eq_ok_iff hstack).mp h
    obtain ⟨calls, rfl⟩ : ∃ calls, m₁ = _ := matchAll_calls hmatch
    obtain ⟨tried, hscan, hkeys⟩ := scan_noting (matchAll_eq_scan.symm.trans hmatch) []
    have hlen := hkeys.length_le
    rw [List.length_map, List.length_reverse] at hlen
    exact ⟨good, calls, tried, rfl, (matchAll_answers hmatch).trans assigned_reverse, hscan, hkeys, hlen⟩
  · rintro ⟨m', h⟩
    exact ((MultipleCheck.eq_ok_iff hstack).mp h).1
  · obtain ⟨⟨good, m₁⟩, hscan⟩ : ∃ r, matchAll env (q.code m) q.sigs.reverse q.keys.reverse
        { m with opCount := m.opCount + q.keys.length } = .ok r := by
      rw [matchAll_eq_scan]
      refine scan_total fun sig hsig key hkey m => ?_
      obtain ⟨good, hgood⟩ := hanswers sig (List.mem_reverse.mp hsig) key (List.mem_reverse.mp hkey)
      obtain ⟨m', hone⟩ := hgood m
      exact ⟨_, hone⟩
    exact ⟨_, (MultipleCheck.eq_ok_iff hstack).mpr ⟨h, good, m₁, hscan, rfl⟩⟩
  · obtain ⟨check, hcheck⟩ := Option.isSome_iff_exists.mp hcheck
    exact exists_answers hcheck hflags

/-- A check by which a signature goes with the keys that are its `r` and the number after it. -/
def adjacent : SigCheck := fun _ key sig => key == [UInt8.ofNat sig.r.toNat] || key == [UInt8.ofNat (sig.r.toNat + 1)]

/-- Two signatures, of which the first goes with the first two of three keys and the second with the last two, above a dummy
    that is not empty. -/
def twoOfThree : MultipleCheck where
  dummy := [7]
  sigs := [[0x30, 0x06, 0x02, 0x01, 0x01, 0x02, 0x01, 0x01, 0x01], [0x30, 0x06, 0x02, 0x01, 0x02, 0x02, 0x01, 0x01, 0x01]]
  sigItem := [2]
  keys := [[1], [2], [3]]
  keyItem := [3]
  decode_sigItem := rfl
  decode_keyItem := rfl
  sigs_le_keys := by decide

theorem checkMultiSig_complete_twoOfThree : ∃ (m m' : Machine) (tried : List (Bytes × Bytes)),
    m.stack = twoOfThree.stack [[9]] ∧ m.checkMultiSig ⟨{ }, some adjacent, .standard⟩ = .ok m' ∧ m'.stack = [[1], [9]] ∧
    scan (noting (checkOne ⟨{ }, some adjacent, .standard⟩ (.single .requireStrictDerMultisig) (twoOfThree.code m)))
        twoOfThree.sigs.reverse twoOfThree.keys.reverse ({ m with opCount := 3 }, []) =
      .ok (true, { m with opCount := 3, calls := m'.calls }, tried) ∧ tried.length ≤ 3 := by
  obtain ⟨hrun, hends, hanswers, -⟩ := checkMultiSig_complete twoOfThree [[9]] ⟨{ }, some adjacent, .standard⟩
    { stack := twoOfThree.stack [[9]] } rfl
  have hadmitted : twoOfThree.Admitted ⟨{ }, some adjacent, .standard⟩ { stack := twoOfThree.stack [[9]] } :=
    ⟨rfl, by decide, by decide, rfl, by simp [twoOfThree], rfl⟩
  have hassigned : ∀ code, Assigned (fun sig key => Answers ⟨{ }, some adjacent, .standard⟩ code sig key true) twoOfThree.sigs
      twoOfThree.keys := fun code =>
    .cons (fun _ => ⟨_, rfl⟩) (.cons (fun _ => ⟨_, rfl⟩) assigned_nil)
  obtain ⟨m', hm'⟩ := (hends fun sig _ key _ => hanswers rfl (by decide) _ sig key).mpr hadmitted
  obtain ⟨good, calls, tried, rfl, hgood, hscan, -, hlen⟩ := hrun m' hm'
  obtain rfl : good = true := hgood.mpr (hassigned _)
  exact ⟨_, _, tried, rfl, hm', rfl, hscan, hlen⟩

end SpendScript
