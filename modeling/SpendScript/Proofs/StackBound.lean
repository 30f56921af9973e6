import SpendScript.Proofs.RedeemRule
import SpendScript.Proofs.StackSize

/-! # The stack limit over a spend

The limit on both stacks holds in every state that a spend comes to (`Visits.size_le_stackSize`). The one place where items come
back without being asked for room is the stack that a redeem script starts from: it was within the limit when the
unlocking script left it, and the locking script before it leaves the second stack empty. -/

namespace SpendScript

open Machine

/-! ### Scripts -/

section
variable {env : Env} {m : Machine}

theorem run_within (ops : List Operation) (h : Within env.limits.stackSize m) :
    StaysWithin env.limits.stackSize (ops.foldlM (step env) m) :=
  Ends.foldlM (fun _ o _ hm => step_within hm o) h

theorem begin_within (h : Within env.limits.stackSize m) (script : Bytes) :
    Within env.limits.stackSize (m.begin script) :=
  h.of_le (Nat.le_add_right _ _)

theorem runScript_within (script : Bytes) (h : Within env.limits.stackSize m) :
    StaysWithin env.limits.stackSize (m.runScript env script) := by
  unfold runScript
  split
  · exact fail_ends (fun _ => h) _
  · refine (run_within _ (begin_within h script)).bind fun m' hm' => ?_
    unfold finish
    split
    · exact fail_ends (fun _ => hm') _
    · exact fail_ends (fun _ => hm') _
    · exact hm'

theorem Machine.Reaches.within {script : Bytes} {m' : Machine} (h : Reaches env script m m')
    (hm : Within env.limits.stackSize m) : Within env.limits.stackSize m' := by
  obtain ⟨ops, -, h⟩ := h
  have hrun := run_within ops (begin_within hm script)
  rcases h with h | ⟨f, h⟩
  · rw [h] at hrun
    exact hrun
  · rw [h] at hrun
    exact hrun

end

/-! ### The stack of a redeem script -/

theorem Script.exists_eq_p2sh {script : Bytes} (h : isP2SH script = true) :
    ∃ hash, hash.length = 20 ∧ script = p2sh hash := by
  unfold isP2SH at h
  simp only [Bool.and_eq_true, beq_iff_eq] at h
  obtain ⟨⟨⟨hlen, hfirst⟩, hsecond⟩, hlast⟩ := h
  obtain ⟨a, rest, rfl⟩ := List.exists_cons_of_length_eq_add_one hlen
  obtain ⟨b, rest, rfl⟩ := List.exists_cons_of_length_eq_add_one (Nat.succ.inj hlen)
  have hrest : rest.length = 21 := Nat.succ.inj (Nat.succ.inj hlen)
  have hlast : rest[20]? = some Opcode.opEqual := hlast
  have hend : rest.drop 20 = [Opcode.opEqual] := by
    obtain ⟨hlt, hget⟩ := List.getElem?_eq_some_iff.mp hlast
    rw [List.drop_eq_getElem_cons hlt, hget, List.drop_eq_nil_of_le (Nat.le_of_eq hrest)]
  refine ⟨rest.take 20, by rw [List.length_take, hrest]; rfl, ?_⟩
  cases hfirst
  cases hsecond
  show 0xa9 :: 0x14 :: rest = 0xa9 :: 0x14 :: (rest.take 20 ++ [Opcode.opEqual])
  rw [← hend, List.take_append_drop]

/-- A locking script that holds the hash of a script leaves the second stack empty. -/
theorem alt_of_isP2SH {env : Env} {lock : Bytes} {m m' : Machine} (hlock : Script.isP2SH lock = true)
    (h : m.runScript env lock = .ok m') : m'.alt = [] := by
  obtain ⟨hash, hlen, rfl⟩ := Script.exists_eq_p2sh hlock
  obtain ⟨hsize, -⟩ := runScript_eq_ok.mp h
  have hbare := bareOutcome_straight (m := m) (decode_p2sh hlen) (plain_p2sh hlen) hsize
  rw [h] at hbare
  obtain ⟨m₁, hrun, halt⟩ := bareOutcome_eq_ok.mp hbare.symm
  simp only [List.foldlM_cons, List.foldlM_nil, bind_eq_ok, act_hash160_eq_ok, act_push_eq_ok, act_equal_eq_ok] at hrun
  obtain ⟨_, ⟨-, _, _, -, rfl⟩, _, ⟨-, -, -, rfl⟩, _, ⟨-, _, _, _, -, -, rfl⟩, hdone⟩ := hrun
  cases hdone
  exact (congrArg Machine.alt halt).symm

/-! ### Spends -/

section
variable {env : Env} {unlock lock : Bytes}

theorem restored_within {unlocked locked : Machine} (hu : Within env.limits.stackSize unlocked)
    (halt : locked.alt = []) : Within env.limits.stackSize { locked with stack := unlocked.stack } := by
  refine hu.of_le ?_
  show unlocked.stack.length + locked.alt.length ≤ _
  rw [halt]
  exact Nat.le_add_right _ _

theorem runRedeem_within {left : List Bytes} {m : Machine} (hm : Within env.limits.stackSize m)
    (hleft : Within env.limits.stackSize { m with stack := left }) :
    StaysWithin env.limits.stackSize (m.runRedeem env unlock left) := by
  unfold runRedeem
  split
  · exact fail_ends (fun _ => hm) _
  · refine (requireDepth_ends (fun _ => hleft) 1).bind fun _ _ => (peek_ends (fun _ => hleft) 0).bind fun script _ => ?_
    refine (pop_within hleft 1).bind fun m' hm' => (runScript_within script hm').bind fun m' hm' => ?_
    exact (requireTrueTop_ends fun _ => hm').bind fun _ _ => hm'

theorem redeem_within {unlocked locked : Machine} (hu : Within env.limits.stackSize unlocked)
    (hl : Within env.limits.stackSize locked) (hrun : unlocked.runScript env lock = .ok locked) :
    StaysWithin env.limits.stackSize (locked.redeem env unlock lock unlocked.stack) := by
  unfold redeem
  split
  · rename_i hp
    exact runRedeem_within hl (restored_within hu (alt_of_isP2SH hp.2 hrun))
  · exact hl

theorem spend_within {m : Machine} (h : Within env.limits.stackSize m) (unlock lock : Bytes) :
    StaysWithin env.limits.stackSize (m.spend env unlock lock) := by
  unfold spend
  split
  · exact fail_ends (fun _ => h) _
  · refine (runScript_within unlock h).bind fun unlocked hu => ?_
    refine (runScript_within lock hu).with_eq.bind fun locked ⟨hl, hrun⟩ => ?_
    refine (requireTrueTop_ends fun _ => hl).bind fun _ _ => (redeem_within hu hl hrun).bind fun m hm => ?_
    exact (requireClean_ends fun _ => hm).bind fun _ _ => hm

end

/-- The states that a spend comes to: those of the unlocking script, those of the locking script, the state in which the
    stack of a redeem script is put back, those of the redeem script, and the one that the spend ends in. -/
inductive Visits (env : Env) (unlock lock : Bytes) : Machine → Prop
  | unlocking {m : Machine} (h : Reaches env unlock { } m) : Visits env unlock lock m
  | locking {unlocked m : Machine} (hunlock : runScript env unlock { } = .ok unlocked)
    (h : Reaches env lock unlocked m) : Visits env unlock lock m
  | restoring {unlocked locked : Machine} (hunlock : runScript env unlock { } = .ok unlocked)
    (hlock : unlocked.runScript env lock = .ok locked) (hp2sh : Script.isP2SH lock = true) :
    Visits env unlock lock { locked with stack := unlocked.stack }
  | redeeming {unlocked locked m : Machine} {script : Bytes} {below : List Bytes}
    (hunlock : runScript env unlock { } = .ok unlocked) (hlock : unlocked.runScript env lock = .ok locked)
    (hp2sh : Script.isP2SH lock = true) (hleft : unlocked.stack = script :: below)
    (h : Reaches env script { locked with stack := below } m) : Visits env unlock lock m
  | halting {halt : Halt} (h : spend env unlock lock { } = .error halt) : Visits env unlock lock halt.machine
  | ending {m : Machine} (h : spend env unlock lock { } = .ok m) : Visits env unlock lock m

/-- Both stacks together are within the limit, unless it is negative, in every state that a spend comes to. -/
theorem Visits.size_le_stackSize (env : Env) (unlock lock : Bytes) (m : Machine) (hlimit : 0 ≤ env.limits.stackSize)
    (h : Visits env unlock lock m) : (m.stack.length + m.alt.length : Int) ≤ env.limits.stackSize := by
  have hempty : Within env.limits.stackSize { } := hlimit
  have hscript : ∀ {m m' : Machine} {script : Bytes}, Within env.limits.stackSize m →
      m.runScript env script = .ok m' → Within env.limits.stackSize m' := by
    intro m m' script hm hrun
    have hends := runScript_within script hm
    rw [hrun] at hends
    exact hends
  have hspend := spend_within hempty unlock lock
  show Within env.limits.stackSize m
  cases h with
  | unlocking h => exact h.within hempty
  | locking hunlock h => exact h.within (hscript hempty hunlock)
  | restoring hunlock hlock hp2sh => exact restored_within (hscript hempty hunlock) (alt_of_isP2SH hp2sh hlock)
  | redeeming hunlock hlock hp2sh hleft h =>
    have hrestored := restored_within (hscript hempty hunlock) (alt_of_isP2SH hp2sh hlock)
    rw [hleft] at hrestored
    exact h.within (hrestored.drop 1)
  | halting h =>
    rw [h] at hspend
    exact hspend
  | ending h =>
    rw [h] at hspend
    exact hspend

/-- `OP_2` and a push of a script leave two items, which come back after a locking script that has room for three. -/
theorem size_le_stackSize_restored : (0 : Int) ≤ 3 ∧ ∃ m : Machine,
    Visits ⟨{ stackSize := 3 }, none, .standard⟩ [0x52, 0x03, 0x8b, 0x53, 0x87]
      ([0xa9, 0x14] ++ List.replicate 20 0 ++ [0x87]) m ∧
      m.stack = [[0x8b, 0x53, 0x87], [2]] ∧ (m.stack.length + m.alt.length : Int) ≤ 3 := by
  have hvisits : ∃ m : Machine, Visits ⟨{ stackSize := 3 }, none, .standard⟩ [0x52, 0x03, 0x8b, 0x53, 0x87]
      ([0xa9, 0x14] ++ List.replicate 20 0 ++ [0x87]) m ∧ m.stack = [[0x8b, 0x53, 0x87], [2]] :=
    ⟨_, .restoring rfl rfl rfl, rfl⟩
  obtain ⟨m, hm, hstack⟩ := hvisits
  exact ⟨by decide, m, hm, hstack, Visits.size_le_stackSize _ _ _ m (by decide) hm⟩

end SpendScript
