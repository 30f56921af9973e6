import SpendScript.Proofs.Codec
import SpendScript.Proofs.StraightLine

/-! # Spending the hash of a script

An output `OP_HASH160 <hash> OP_EQUAL` is spent by pushes of which the last is a script with that hash, and of which
the others are what this script starts from (`evaluate_p2sh_iff`). -/

namespace SpendScript

open Machine

/-! ### The locking script -/

/-- `OP_HASH160 <hash> OP_EQUAL` for a hash of twenty bytes. -/
def Script.p2sh (hash : Bytes) : Bytes := [0xa9, 0x14] ++ hash ++ [0x87]

section
variable {hash : Bytes} (hlen : hash.length = 20)
include hlen

theorem accepts_hash : PushEncoding.direct.Accepts hash.length := by
  rw [hlen]
  decide

theorem decode_p2sh : Script.decode (Script.p2sh hash) =
    .ok [.code 0xa9, .push ⟨hash, .direct, accepts_hash hlen⟩, .code 0x87] := by
  have hops : Script.p2sh hash =
      Script.ofOps [.code 0xa9, .push ⟨hash, .direct, accepts_hash hlen⟩, .code 0x87] ++ [] := by
    have hopcode : PushData.opcode ⟨hash, .direct, accepts_hash hlen⟩ = 0x14 := congrArg UInt8.ofNat hlen
    have hpush : PushData.toBytes ⟨hash, .direct, accepts_hash hlen⟩ = 0x14 :: hash := by
      unfold PushData.toBytes
      rw [hopcode]
      rfl
    rw [List.append_nil]
    simp [Script.p2sh, Script.ofOps, Operation.toBytes, hpush]
  unfold Script.decode
  rw [hops, Script.listing_ofOps (by simp [Operation.isDistinct])]
  rfl

theorem plain_p2sh :
    ∀ o ∈ [Operation.code 0xa9, .push ⟨hash, .direct, accepts_hash hlen⟩, .code 0x87], o.mark? = none := by
  intro o ho
  simp only [List.mem_cons, List.not_mem_nil, or_false] at ho
  rcases ho with rfl | rfl | rfl <;> rfl

theorem length_p2sh : (Script.p2sh hash).length = 23 := by
  simp [Script.p2sh, hlen]

theorem isP2SH_p2sh : Script.isP2SH (Script.p2sh hash) = true := by
  have hlast : (Script.p2sh hash)[22]? = some 0x87 := by
    unfold Script.p2sh
    rw [List.getElem?_append_right (by simp [hlen])]
    simp [hlen]
  unfold Script.isP2SH
  rw [hlast, length_p2sh hlen]
  rfl

/-- The locking script compares the hash of the top item, and has room for its own hash beside the items below. -/
theorem runScript_p2sh {flags : Flags} {check : Option SigCheck} {hashes : Hashes} {m : Machine} {s : List Bytes} :
    report (m.runScript ⟨{ flags }, check, hashes⟩ (Script.p2sh hash)) = (none, s) ↔
      ∃ redeem below, m.stack = redeem :: below ∧ below.length ≤ 998 ∧
        s = Number.ofBool (hash == (hashes.hash160 redeem).bytes) :: below := by
  have hsize : ((Script.p2sh hash).length : Int) ≤ (Env.mk { flags } check hashes).limits.scriptSize := by
    rw [length_p2sh hlen]
    exact of_decide_eq_true rfl
  have hminimal : PushData.opcode ⟨hash, .direct, accepts_hash hlen⟩ = Push.opcode hash :=
    (Push.opcode_of_length (hlen ▸ by decide) (hlen ▸ by decide)).symm
  rw [runScript_straight (decode_p2sh hlen) (plain_p2sh hlen) hsize, report_eq_none]
  simp only [List.foldlM_cons, List.foldlM_nil, bind_eq_ok, act_hash160_eq_ok, act_push_eq_ok, act_equal_eq_ok]
  constructor
  · rintro ⟨_, ⟨_, ⟨-, redeem, below, hstack, rfl⟩, _, ⟨-, -, hroom, rfl⟩, _, ⟨-, a, b, rest, hpair, -, rfl⟩, h⟩, rfl⟩
    cases h
    cases hpair
    refine ⟨redeem, below, hstack, ?_, rfl⟩
    -- only the push asks for room that nothing has freed
    change ((below.length + 1 + 0 : Nat) : Int) + 1 ≤ 1000 at hroom
    omega
  · rintro ⟨redeem, below, hstack, hroom, rfl⟩
    refine ⟨_, ⟨_, ⟨of_decide_eq_true rfl, redeem, below, hstack, rfl⟩, _, ⟨?_, fun _ => hminimal, ?_, rfl⟩, _,
      ⟨of_decide_eq_true rfl, _, _, below, rfl, ?_, rfl⟩, rfl⟩, rfl⟩
    · rw [hlen]
      exact of_decide_eq_true rfl
    · change ((below.length + 1 + 0 : Nat) : Int) + 1 ≤ 1000
      omega
    · change ((below.length : Int) + (0 : Nat)) + 1 ≤ 1000
      omega

end

/-! ### The redeem script -/

section
variable {env : Env} {m m' : Machine}

theorem runRedeem_eq_ok {unlock : Bytes} {left : List Bytes} : m.runRedeem env unlock left = .ok m' ↔
    Script.isPushOnly unlock = true ∧ ∃ script below, left = script :: below ∧
      { m with stack := below }.runScript env script = .ok m' ∧ Number.isTrue m'.top = true := by
  unfold runRedeem
  cases Script.isPushOnly unlock with
  | false => exact ⟨fun h => (nomatch h), fun h => (nomatch h.1)⟩
  | true =>
    rw [if_neg (fun h => h rfl)]
    simp only [bind_eq_ok, requireDepth_eq_ok, peek_eq_ok, pop_eq_ok, requireTrueTop_eq_ok]
    constructor
    · rintro ⟨_, -, script, hscript, _, ⟨-, rfl⟩, final, hrun, _, htrue, heq⟩
      obtain ⟨below, rfl⟩ := eq_cons_of_getElem? hscript
      cases heq
      exact ⟨trivial, script, below, rfl, hrun, htrue⟩
    · rintro ⟨-, script, below, rfl, hrun, htrue⟩
      have hdepth : 1 ≤ (script :: below).length := Nat.le_add_left 1 below.length
      exact ⟨(), Int.ofNat_le.mpr hdepth, script, rfl, _, ⟨hdepth, rfl⟩, m', hrun, (), htrue, rfl⟩

end

/-! ### The rule -/

theorem report_evaluate {env : Env} {unlock lock : Bytes} {final : List Bytes} :
    (∃ calls, evaluate env unlock lock = .ok ⟨none, final, calls⟩) ↔
      report (spend env unlock lock { }) = (none, final.reverse) := by
  rw [report_eq_none]
  constructor
  · rintro ⟨calls, h⟩
    obtain ⟨m, hm, heq⟩ := evaluate_success.mp ⟨h, rfl⟩
    cases heq
    exact ⟨m, hm, (List.reverse_reverse _).symm⟩
  · rintro ⟨m, hm, hstack⟩
    refine ⟨m.calls.reverse, (evaluate_success.mpr ⟨m, hm, ?_⟩).1⟩
    rw [hstack, List.reverse_reverse]

/-- What the redeem script runs from is what the unlocking script left below it, whatever the locking script did. -/
theorem spend_p2sh_eq_ok {flags : Flags} {check : Option SigCheck} {hashes : Hashes} {hash unlock : Bytes} {m : Machine}
    (hlen : hash.length = 20) (hflag : flags.has .enableP2sh = true) :
    spend ⟨{ flags }, check, hashes⟩ unlock (Script.p2sh hash) { } = .ok m ↔
      Script.isPushOnly unlock = true ∧
      ∃ (unlocked locked : Machine) (script : Bytes) (below : List Bytes),
        runScript ⟨{ flags }, check, hashes⟩ unlock { } = .ok unlocked ∧ unlocked.stack = script :: below ∧
        below.length ≤ 998 ∧ (hashes.hash160 script).bytes = hash ∧
        runScript ⟨{ flags }, check, hashes⟩ (Script.p2sh hash) unlocked = .ok locked ∧
        runScript ⟨{ flags }, check, hashes⟩ script { locked with stack := below } = .ok m ∧
        Number.isTrue m.top = true ∧ (flags.has .requireCleanStack = true → m.stack.length = 1) := by
  have hredeem : ∀ (left : List Bytes) (locked : Machine),
      locked.redeem ⟨{ flags }, check, hashes⟩ unlock (Script.p2sh hash) left =
        locked.runRedeem ⟨{ flags }, check, hashes⟩ unlock left := fun _ _ => if_pos ⟨hflag, isP2SH_p2sh hlen⟩
  simp only [spend_eq_ok, hredeem, runRedeem_eq_ok]
  constructor
  · rintro ⟨-, unlocked, locked, hunlock, hlock, htrue, ⟨hpush, script, below, hleft, hrun, htop⟩, hclean⟩
    obtain ⟨_, _, hstack, hroom, hlocked⟩ := (runScript_p2sh hlen).mp (report_eq_none.mpr ⟨locked, hlock, rfl⟩)
    cases hleft.symm.trans hstack
    have hhash : hash = (hashes.hash160 script).bytes := by
      unfold top at htrue
      rw [hlocked, List.headD_cons, Number.isTrue_ofBool] at htrue
      exact eq_of_beq htrue
    exact ⟨hpush, unlocked, locked, script, below, hunlock, hleft, hroom, hhash.symm, hlock, hrun, htop, hclean⟩
  · rintro ⟨hpush, unlocked, locked, script, below, hunlock, hleft, hroom, hhash, hlock, hrun, htop, hclean⟩
    refine ⟨fun _ => hpush, unlocked, locked, hunlock, hlock, ?_, ⟨hpush, script, below, hleft, hrun, htop⟩, hclean⟩
    obtain ⟨_, _, hstack, -, hlocked⟩ := (runScript_p2sh hlen).mp (report_eq_none.mpr ⟨locked, hlock, rfl⟩)
    cases hleft.symm.trans hstack
    unfold top
    rw [hlocked, List.headD_cons, Number.isTrue_ofBool, hhash]
    exact beq_self_eq_true hash

/-- An output to the hash of a script is spent exactly by pushes that leave a script with this hash above at most 998
    items, if the script, begun on those items, leaves a true item on top, and nothing else where the flags want a
    clean stack. What it leaves is the final stack. The hash may be any function to twenty bytes. -/
theorem evaluate_p2sh_iff (flags : Flags) (check : Option SigCheck) (hashes : Hashes) (hash unlock : Bytes)
    (final : List Bytes) (hlen : hash.length = 20) (hflag : flags.has .enableP2sh = true) :
    (∃ calls, evaluate ⟨{ flags }, check, hashes⟩ unlock ([0xa9, 0x14] ++ hash ++ [0x87]) = .ok ⟨none, final, calls⟩) ↔
      Script.isPushOnly unlock = true ∧
      ∃ (unlocked done : Machine) (script : Bytes) (below : List Bytes),
        runScript ⟨{ flags }, check, hashes⟩ unlock { } = .ok unlocked ∧ unlocked.stack = script :: below ∧
        below.length ≤ 998 ∧ (hashes.hash160 script).bytes = hash ∧
        runScript ⟨{ flags }, check, hashes⟩ script { stack := below } = .ok done ∧
        Number.isTrue done.top = true ∧ (flags.has .requireCleanStack = true → done.stack.length = 1) ∧
        final = done.stack.reverse := by
  rw [report_evaluate, report_eq_none]
  constructor
  · rintro ⟨m, hm, hfinal⟩
    obtain ⟨hpush, unlocked, locked, script, below, hunlock, hleft, hroom, hhash, -, hrun, htop, hclean⟩ :=
      (spend_p2sh_eq_ok hlen hflag).mp hm
    obtain ⟨done, hdone, hsame⟩ := runScript_eq_ok_of_stack hrun { stack := below } rfl
    refine ⟨hpush, unlocked, done, script, below, hunlock, hleft, hroom, hhash, hdone, ?_, ?_, ?_⟩
    · rw [top_eq_of_stack hsame]
      exact htop
    · rw [hsame]
      exact hclean
    · rw [hsame, hfinal, List.reverse_reverse]
  · rintro ⟨hpush, unlocked, done, script, below, hunlock, hleft, hroom, hhash, hdone, htop, hclean, rfl⟩
    obtain ⟨locked, hlock, -⟩ := report_eq_none.mp ((runScript_p2sh hlen).mpr ⟨script, below, hleft, hroom, rfl⟩)
    obtain ⟨m, hrun, hsame⟩ := runScript_eq_ok_of_stack hdone { locked with stack := below } rfl
    refine ⟨m, (spend_p2sh_eq_ok hlen hflag).mpr ⟨hpush, unlocked, locked, script, below, hunlock, hleft, hroom, hhash,
      hlock, hrun, ?_, ?_⟩, ?_⟩
    · rw [top_eq_of_stack hsame]
      exact htop
    · rw [hsame]
      exact hclean
    · rw [hsame, List.reverse_reverse]

/-- The hash of `OP_1ADD OP_3 OP_EQUAL` is spent by `OP_2` and a push of that script. -/
theorem evaluate_p2sh_sum : (Hashes.standard.hash160 [0x8b, 0x53, 0x87]).bytes.length = 20 ∧
    Flags.has .standard .enableP2sh = true ∧
    ∃ calls, evaluate ⟨{ flags := .standard }, none, .standard⟩ [0x52, 0x03, 0x8b, 0x53, 0x87]
      ([0xa9, 0x14] ++ (Hashes.standard.hash160 [0x8b, 0x53, 0x87]).bytes ++ [0x87]) = .ok ⟨none, [[1]], calls⟩ := by
  have hlen := (Hashes.standard.hash160 [0x8b, 0x53, 0x87]).length_bytes
  refine ⟨hlen, rfl, (evaluate_p2sh_iff .standard none .standard _ _ [[1]] hlen rfl).mpr ?_⟩
  exact ⟨rfl, _, _, [0x8b, 0x53, 0x87], [[2]], rfl, rfl, by decide, rfl, rfl, rfl, fun _ => rfl, rfl⟩

end SpendScript
