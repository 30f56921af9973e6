import SpendScript.Proofs.CanonicalPush
import SpendScript.Proofs.MultipleCheck

/-! # Deleting operations in any order

A pattern that is one operation is deleted from a script as a filter deletes it from a list: the other operations stay
as they are, in their order, and so does a push that is cut off at the end (`Script.listing_delete`). Since a script is
determined by what it reads as (`Script.eq_of_listing`), such deletions can be repeated and exchanged like filters. The
script code of a multiple check, from which its signatures are deleted one after another, therefore does not depend on
their order (`foldlM_cleanCode_perm`). -/

namespace SpendScript

theorem Operation.toBytes_inj {o p : Operation} (ho : o.isDistinct = true) (hp : p.isDistinct = true) :
    p.toBytes = o.toBytes ↔ p = o := by
  refine ⟨fun h => (isPrefixOf_toBytes ho hp []).mp ?_, congrArg toBytes⟩
  rw [h, List.append_nil]
  exact List.isPrefixOf_iff_prefix.mpr List.prefix_rfl

namespace Script

theorem eq_of_listing {a b : Bytes} (h : listing a = listing b) : a = b := by
  have ha := ofOps_listing a
  rwa [h, ofOps_listing b, eq_comm] at ha

/-! ### Patterns of one operation -/

section
variable {p : Bytes} {o : Operation} (hp : decode p = .ok [o])
include hp

theorem toBytes_of_decode : o.toBytes = p ∧ o.isDistinct = true := by
  obtain ⟨hbytes, hdistinct⟩ := ofOps_of_decode hp
  rw [ofOps_singleton] at hbytes
  exact ⟨hbytes, hdistinct o List.mem_cons_self⟩

theorem delete_eq_filter (script : Bytes) : delete p script =
    ofOps ((listing script).ops.filter (·.toBytes ≠ p)) ++ (listing script).tail := by
  obtain ⟨rfl, ho⟩ := toBytes_of_decode hp
  have hfilter : (listing script).ops.filter (· ≠ o) = (listing script).ops.filter (·.toBytes ≠ o.toBytes) := by
    refine List.filter_congr fun q hq => ?_
    rw [decide_eq_decide, ne_eq, ne_eq, Operation.toBytes_inj ho (isDistinct_listing script q hq)]
  rw [delete_toBytes ho, without, hfilter]

/-- What is left reads as the other operations and is cut off where the script is. -/
theorem listing_delete (script : Bytes) : listing (delete p script) =
    ⟨(listing script).ops.filter (·.toBytes ≠ p), (listing script).cut⟩ := by
  rw [delete_eq_filter hp, listing_filter]

theorem delete_delete (script : Bytes) : delete p (delete p script) = delete p script := by
  apply eq_of_listing
  rw [listing_delete hp, listing_delete hp, List.filter_filter]
  simp only [Bool.and_self]

theorem delete_comm {q : Bytes} {o' : Operation} (hq : decode q = .ok [o']) (script : Bytes) :
    delete p (delete q script) = delete q (delete p script) := by
  apply eq_of_listing
  rw [listing_delete hp, listing_delete hq, listing_delete hq, listing_delete hp, List.filter_filter, List.filter_filter]
  simp only [Bool.and_comm]

theorem mem_delete_iff {q : Operation} {script : Bytes} : q ∈ (listing (delete p script)).ops ↔
    q ∈ (listing script).ops ∧ q.toBytes ≠ p := by
  rw [listing_delete hp, List.mem_filter, decide_eq_true_iff]

end

/-- A push is longer than what it pushes, so that a pattern within its data is not the push itself. -/
theorem toBytes_ne_of_infix {p : Bytes} {d : PushData} (h : p <:+: d.data) : (Operation.push d).toBytes ≠ p := by
  rintro rfl
  have hle := h.length_le
  rw [Operation.length_toBytes] at hle
  have hsize : (Operation.push d).size = 1 + d.encoding.lengthWidth + d.data.length := rfl
  omega

theorem exists_decode_item {item push : Bytes} (h : Push.item item = .ok push) : ∃ o, decode push = .ok [o] := by
  unfold Push.item at h
  split at h
  · rename_i hlen
    cases h
    obtain ⟨o, hdecode, -⟩ := pushes_encode hlen
    exact ⟨o, hdecode⟩
  · cases h

end Script

/-! ### Multiple checks -/

theorem cleanCode_comm (a b code : Bytes) : (Limits.cleanCode a code >>= fun code => Limits.cleanCode b code) =
    (Limits.cleanCode b code >>= fun code => Limits.cleanCode a code) := by
  unfold Limits.cleanCode
  cases ha : Push.item a with
  | error f =>
    cases hb : Push.item b with
    | error f' =>
      -- the only fault is an item that is too large
      simp only [Push.item] at ha hb
      split at ha
      · cases ha
      · split at hb
        · cases hb
        · exact ha.symm.trans hb
    | ok push => rfl
  | ok push =>
    cases hb : Push.item b with
    | error f => rfl
    | ok push' =>
      obtain ⟨o, ho⟩ := Script.exists_decode_item ha
      obtain ⟨o', ho'⟩ := Script.exists_decode_item hb
      exact congrArg Except.ok (Script.delete_comm ho' ho code)

theorem foldlM_cleanCode_perm {sigs sigs' : List Bytes} (h : sigs.Perm sigs') (code : Bytes) :
    sigs.foldlM (fun code sig => Limits.cleanCode sig code) code =
      sigs'.foldlM (fun code sig => Limits.cleanCode sig code) code := by
  induction h generalizing code with
  | nil => rfl
  | cons sig _ ih =>
    rw [List.foldlM_cons, List.foldlM_cons]
    simp only [ih]
  | swap a b sigs =>
    simp only [List.foldlM_cons]
    rw [← bind_assoc, ← bind_assoc, cleanCode_comm]
  | trans _ _ ih ih' => exact (ih code).trans (ih' code)

open Machine

/-- A scan puts one script code to all its checks. -/
theorem matchAll_code {env : Env} {code : Bytes} {sigs keys : List Bytes} {m : Machine} {r : Bool × Machine}
    (h : matchAll env code sigs keys m = .ok r) : ∃ made, r.2.calls = made ++ m.calls ∧ ∀ c ∈ made, c.code = code := by
  have hends : Ends (fun r => ∃ made, r.2.calls = made ++ m.calls ∧ ∀ c ∈ made, c.code = code) (fun _ => True)
      (matchAll env code sigs keys m) := by
    refine matchAll_ends (I := fun m' => ∃ made, m'.calls = made ++ m.calls ∧ ∀ c ∈ made, c.code = code) ?_
      ⟨[], rfl, nofun⟩ sigs keys
    rintro m₁ ⟨made, hcalls, hmade⟩ sig key
    cases hone : m₁.checkOne env (.single .requireStrictDerMultisig) code sig key with
    | error halt => trivial
    | ok r =>
      obtain ⟨-, ⟨-, -, hm⟩ | ⟨txSig, check, -, -, -, hm⟩⟩ := checkOne_eq_ok.mp hone
      · exact ⟨made, hm ▸ hcalls, hmade⟩
      · refine ⟨⟨code, key, txSig, r.1⟩ :: made, ?_, List.forall_mem_cons.mpr ⟨rfl, hmade⟩⟩
        rw [hm, List.cons_append, ← hcalls]
  rw [h] at hends
  exact hends

/-- The checks of a multiple check are made with the code that deleting its signatures leaves, in whatever order. -/
theorem MultipleCheck.code_of_calls {q : MultipleCheck} {base : List Bytes} {env : Env} {m m' : Machine}
    (hstack : m.stack = q.stack base) (h : m.checkMultiSig env = .ok m') :
    ∃ made, m'.calls = made ++ m.calls ∧ ∀ c ∈ made, ∀ sigs : List Bytes, sigs.Perm q.sigs →
      sigs.foldlM (fun code sig => Limits.cleanCode sig code) m.code = .ok c.code := by
  obtain ⟨hadmitted, good, m₁, hmatch, rfl⟩ := (eq_ok_iff hstack).mp h
  obtain ⟨made, hcalls, hcode⟩ := matchAll_code hmatch
  refine ⟨made, hcalls, fun c hc sigs hperm => ?_⟩
  rw [foldlM_cleanCode_perm hperm, hcode c hc]
  exact foldlM_cleanCode_eq_ok.mpr ⟨hadmitted.length_sigs, rfl⟩

/-! ### Deletion as a filter -/

namespace Script

/-- A pattern that is one operation, as the shortest push of an item and `OP_CODESEPARATOR` are. Its deletion leaves the bytes
    of the other operations and of the tail that does not read, and what is left reads as these: without the pattern, and with
    all pushes that hold it in their data. Such deletions can be repeated and exchanged. The script code of a multiple check,
    which all its single checks are made with, is therefore the same in every order of its signatures. -/
theorem delete_operation :
    (∀ (p : Bytes) (o : Operation), decode p = .ok [o] → ∀ script : Bytes,
      delete p script = ofOps ((listing script).ops.filter (·.toBytes ≠ p)) ++ (listing script).tail ∧
      listing (delete p script) = ⟨(listing script).ops.filter (·.toBytes ≠ p), (listing script).cut⟩ ∧
      delete p (delete p script) = delete p script ∧
      (∀ (q : Bytes) (o' : Operation), decode q = .ok [o'] → delete p (delete q script) = delete q (delete p script)) ∧
      (∀ o' ∈ (listing (delete p script)).ops, o'.toBytes ≠ p) ∧
      ∀ d : PushData, .push d ∈ (listing script).ops → p <:+: d.data → .push d ∈ (listing (delete p script)).ops) ∧
    (∀ item push : Bytes, Push.item item = .ok push → ∃ o, decode push = .ok [o]) ∧
    (∃ o, decode [Opcode.opCodeSeparator] = .ok [o]) ∧
    (∀ (sigs sigs' : List Bytes) (code : Bytes), sigs.Perm sigs' →
      sigs.foldlM (fun code sig => Limits.cleanCode sig code) code =
        sigs'.foldlM (fun code sig => Limits.cleanCode sig code) code) ∧
    ∀ (q : MultipleCheck) (base : List Bytes) (env : Env) (m m' : Machine), m.stack = q.stack base →
      m.checkMultiSig env = .ok m' → ∃ made, m'.calls = made ++ m.calls ∧ ∀ c ∈ made, ∀ sigs : List Bytes, sigs.Perm q.sigs →
        sigs.foldlM (fun code sig => Limits.cleanCode sig code) m.code = .ok c.code := by
  refine ⟨fun p o hp script => ?_, fun _ _ => exists_decode_item, ⟨_, rfl⟩, fun _ _ code h => foldlM_cleanCode_perm h code,
    fun _ _ _ _ _ => MultipleCheck.code_of_calls⟩
  refine ⟨delete_eq_filter hp script, listing_delete hp script, delete_delete hp script,
    fun q o' hq => delete_comm hp hq script, fun o' ho' => ((mem_delete_iff hp).mp ho').2, fun d hd hin => ?_⟩
  exact (mem_delete_iff hp).mpr ⟨hd, toBytes_ne_of_infix hin⟩

/-- A script that pushes the first signature of a multiple check. -/
def signedScript : Bytes := [0x51, 0x09, 0x30, 0x06, 0x02, 0x01, 0x01, 0x02, 0x01, 0x01, 0x01, 0xae]

/-- `OP_CODESEPARATOR` twice as an operation, and its byte in a push and in a push that is cut off; and a multiple check of two
    signatures, one of which is pushed by the script. -/
theorem delete_operation_separators :
    delete [0xab] [0xab, 0x02, 0xab, 0xab, 0x51, 0xab, 0x05, 0xab] = [0x02, 0xab, 0xab, 0x51, 0x05, 0xab] ∧
    delete [0x51] (delete [0xab] [0xab, 0x02, 0xab, 0xab, 0x51, 0xab, 0x05, 0xab]) =
      delete [0xab] (delete [0x51] [0xab, 0x02, 0xab, 0xab, 0x51, 0xab, 0x05, 0xab]) ∧
    .push ⟨[0xab, 0xab], .direct, by decide⟩ ∈ (listing (delete [0xab] [0xab, 0x02, 0xab, 0xab, 0x51, 0xab, 0x05, 0xab])).ops ∧
    (∃ o, decode (0x09 :: [0x30, 0x06, 0x02, 0x01, 0x01, 0x02, 0x01, 0x01, 0x01]) = .ok [o]) ∧
    ∃ m', checkMultiSig ⟨{ }, some adjacent, .standard⟩
        { stack := twoOfThree.stack [[9]], cursor := some (.start signedScript) } =
      .ok m' ∧ m'.calls.length = 2 ∧ ∀ c ∈ m'.calls, c.code = [0x51, 0xae] := by
  obtain ⟨hdelete, hitem, -, hperm, hchecks⟩ := delete_operation
  obtain ⟨hleft, -, -, -, -, hdata⟩ := hdelete [0xab] _ rfl [0xab, 0x02, 0xab, 0xab, 0x51, 0xab, 0x05, 0xab]
  obtain ⟨-, -, -, hcomm, -⟩ := hdelete [0x51] _ rfl [0xab, 0x02, 0xab, 0xab, 0x51, 0xab, 0x05, 0xab]
  have hrun : ∃ m', checkMultiSig ⟨{ }, some adjacent, .standard⟩
      { stack := twoOfThree.stack [[9]], cursor := some (.start signedScript) } = .ok m' ∧ m'.calls.length = 2 :=
    ⟨_, rfl, rfl⟩
  obtain ⟨m', hm', hcount⟩ := hrun
  obtain ⟨made, hcalls, hcode⟩ := hchecks twoOfThree [[9]] _ _ m' rfl hm'
  refine ⟨hleft, hcomm [0xab] _ rfl, hdata _ (by decide) ⟨[], [0xab], rfl⟩,
    hitem [0x30, 0x06, 0x02, 0x01, 0x01, 0x02, 0x01, 0x01, 0x01] _ rfl, m',
    hm', hcount, fun c hc => ?_⟩
  rw [hcalls, List.append_nil] at hc
  have hlast := hcode c hc twoOfThree.sigs.reverse (List.reverse_perm _)
  rw [hperm _ _ _ (List.reverse_perm twoOfThree.sigs)] at hlast
  exact (Except.ok.inj hlast).symm

end Script

end SpendScript
