import SpendScript.Proofs.Inheritance

/-! # What the unlocking script hands over

An unlocking script acts on what follows it through the data stack that it leaves, and through nothing else but whether
it only pushes. Two unlocking scripts with the same stack are therefore worth the same to every locking script: both
evaluations end with the same fault or with none, the same final stack, and the same signature checks after those of the
unlocking scripts (`evaluate_sees_only_stack`). -/

namespace SpendScript

open Machine

/-! ### After the unlocking script -/

section
variable {env : Env} {past past' : List SigCall} {m m' : Machine}

theorem Agree.requireTrueTop (h : Abreast past past' m m') {k k' : Except Halt Machine}
    (hk : Agree (Abreast past past') k k') :
    Agree (Abreast past past') (m.requireTrueTop >>= fun _ => k) (m'.requireTrueTop >>= fun _ => k') := by
  unfold Machine.requireTrueTop
  rw [top_eq_of_stack h.stack]
  split
  · exact hk
  · exact .halt _ h

theorem Agree.requireClean (h : Abreast past past' m m') :
    Agree (Abreast past past') (m.requireClean env >>= fun _ => .ok m) (m'.requireClean env >>= fun _ => .ok m') := by
  unfold Machine.requireClean
  rw [h.stack]
  split
  · exact .halt _ h
  · exact .ok h

variable {unlock unlock' : Bytes} (hpush : Script.isPushOnly unlock = Script.isPushOnly unlock')
include hpush

/-- The redeem script runs from the stack that the unlocking script left, not from what the locking script made of it. -/
theorem runRedeem_abreast (left : List Bytes) (h : Abreast past past' m m') :
    Agree (Abreast past past') (m.runRedeem env unlock left) (m'.runRedeem env unlock' left) := by
  unfold runRedeem
  rw [hpush]
  split
  · exact .halt _ h
  · cases left with
    | nil => exact .halt _ ⟨rfl, h.calls⟩
    | cons script below =>
      have hbelow : Abreast past past' { m with stack := below } { m' with stack := below } := ⟨rfl, h.calls⟩
      exact (runScript_abreast hbelow).bind fun m m' h => .requireTrueTop h (.ok h)

theorem redeem_abreast (lock : Bytes) (left : List Bytes) (h : Abreast past past' m m') :
    Agree (Abreast past past') (m.redeem env unlock lock left) (m'.redeem env unlock' lock left) := by
  unfold redeem
  split
  · exact runRedeem_abreast hpush left h
  · exact .ok h

/-- What follows the unlocking scripts, from states of which only the data stacks are the same. -/
theorem spend_abreast (hsig : ¬(env.limits.flags.has .requireSigPushOnly = true ∧ ¬Script.isPushOnly unlock = true))
    {start : Machine} (hm : start.runScript env unlock = .ok m) (hm' : start.runScript env unlock' = .ok m')
    (hstack : m.stack = m'.stack) (lock : Bytes) :
    Agree (Abreast m.calls m'.calls) (spend env unlock lock start) (spend env unlock' lock start) := by
  have h : Abreast m.calls m'.calls m m' := ⟨hstack, [], rfl, rfl⟩
  unfold spend
  rw [if_neg hsig, if_neg (hpush ▸ hsig), hm, hm']
  refine (runScript_abreast h).bind fun locked locked' hlocked => .requireTrueTop hlocked ?_
  rw [hstack]
  exact (redeem_abreast hpush lock _ hlocked).bind fun final final' hfinal => .requireClean hfinal

end

/-! ### Evaluations -/

/-- What an evaluation shows after some first signature checks: its fault, its final stack and the other checks. -/
def Evaluation.since (made : Nat) (e : Evaluation) : Option Fault × List Bytes × List SigCall :=
  (e.fault, e.stack, e.calls.drop made)

theorem Abreast.calls_since {past past' : List SigCall} {m m' : Machine} (h : Abreast past past' m m') :
    m.calls.reverse.drop past.length = m'.calls.reverse.drop past'.length := by
  obtain ⟨made, hcalls, hcalls'⟩ := h.calls
  rw [hcalls, hcalls', List.reverse_append, List.reverse_append, List.drop_left' List.length_reverse,
    List.drop_left' List.length_reverse]

theorem Agree.ofRun_since {past past' : List SigCall} {y y' : Except Halt Machine}
    (h : Agree (Abreast past past') y y') : (Evaluation.ofRun y).map (·.since past.length) =
      (Evaluation.ofRun y').map (·.since past'.length) := by
  rcases h with h | ⟨f, h⟩
  · simp [Evaluation.ofRun, Evaluation.since, Except.map, h.stack, h.calls_since]
  · cases hf : f.isScriptFault with
    | false => simp [Evaluation.ofRun, Except.map, hf]
    | true => simp [Evaluation.ofRun, Evaluation.since, Except.map, hf, h.stack, h.calls_since]

/-- Two unlocking scripts that leave the same data stack, and of which both or neither only push, are worth the same to
    every locking script. And whatever else two states hold besides one data stack, a script goes on alike from them. -/
theorem evaluate_sees_only_stack (env : Env) :
    (∀ (unlock unlock' : Bytes) (m m' : Machine), runScript env unlock { } = .ok m → runScript env unlock' { } = .ok m' →
      m.stack = m'.stack → Script.isPushOnly unlock = Script.isPushOnly unlock' → ∀ lock : Bytes,
        (evaluate env unlock lock).map (·.since m.calls.length) =
          (evaluate env unlock' lock).map (·.since m'.calls.length)) ∧
    ∀ (script : Bytes) (m m' : Machine), m.stack = m'.stack →
      Agree (Abreast m.calls m'.calls) (m.runScript env script) (m'.runScript env script) := by
  refine ⟨fun unlock unlock' m m' hm hm' hstack hpush lock => ?_, fun script m m' hstack => ?_⟩
  · by_cases hsig : env.limits.flags.has .requireSigPushOnly = true ∧ ¬Script.isPushOnly unlock = true
    · -- neither script is run
      have hhalt : spend env unlock lock { } = .error ⟨.sigNotPushOnly, { }⟩ := if_pos hsig
      have hhalt' : spend env unlock' lock { } = .error ⟨.sigNotPushOnly, { }⟩ := if_pos (hpush ▸ hsig)
      have hscript : Fault.sigNotPushOnly.isScriptFault = true := rfl
      simp [evaluate, hhalt, hhalt', Evaluation.ofRun, Evaluation.since, Except.map, hscript]
    · exact (spend_abreast hpush hsig hm hm' hstack lock).ofRun_since
  · exact runScript_abreast ⟨hstack, [], rfl, rfl⟩

/-- A signature that is checked, with a copy of the result on the second stack, is worth as much as `OP_1 OP_NOP`: to
    `OP_FROMALTSTACK` both leave nothing. -/
theorem evaluate_sees_only_stack_signed : ∃ (env : Env) (unlock unlock' : Bytes) (m m' : Machine),
    unlock = [0x09, 0x30, 0x06, 0x02, 0x01, 0x01, 0x02, 0x01, 0x01, 0x01, 0x51, 0xac, 0x76, 0x6b] ∧
    unlock' = [0x51, 0x61] ∧ runScript env unlock { } = .ok m ∧ runScript env unlock' { } = .ok m' ∧
    m.stack = m'.stack ∧ m.alt = [[1]] ∧ m'.alt = [] ∧ m.calls.length = 1 ∧ m'.calls.length = 0 ∧
    (evaluate env unlock' [0x6c]).map (·.since 0) = .ok (some .altStackEmpty, [[1]], []) ∧
    (evaluate env unlock [0x6c]).map (·.since 1) = (evaluate env unlock' [0x6c]).map (·.since 0) := by
  refine ⟨⟨{ }, some fun _ _ _ => true, .standard⟩, _, _, _, _, rfl, rfl, rfl, rfl, rfl, rfl, rfl, rfl, rfl, rfl, ?_⟩
  exact (evaluate_sees_only_stack ⟨{ }, some fun _ _ _ => true, .standard⟩).1
    [0x09, 0x30, 0x06, 0x02, 0x01, 0x01, 0x02, 0x01, 0x01, 0x01, 0x51, 0xac, 0x76, 0x6b] [0x51, 0x61] _ _ rfl rfl rfl rfl [0x6c]

end SpendScript
