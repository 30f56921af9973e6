import SpendScript.Proofs.Frame
import SpendScript.Proofs.SignatureChecks

/-! # What actions leave in place

Apart from the marks of blocks, `OP_CODESEPARATOR` and the signature checks, an action changes the stacks only
(`perform_shows`). A signature check also changes the record of such checks, so that the open conditions, the count and the
place in the script stay as they are (`perform_control`), and a multiple one raises the count, by the number on top of the
stack (`checkMultiSig_control`). -/

namespace SpendScript

/-- Whether an action leaves alone what is not on a stack. -/
def Action.isOnStacks : Action → Bool
  | openIf _ | otherwise | closeIf | codeSeparator | checkMultiSig | checkMultiSigVerify => false
  | _ => true

/-- Whether an action checks signatures. -/
def Action.isCheck : Action → Bool
  | checkSig | checkSigVerify | checkMultiSig | checkMultiSigVerify => true
  | _ => false

namespace Machine

/-- The state but for the stacks and the signature checks made. -/
def control (m : Machine) : Machine := { m with stack := [], alt := [], calls := [] }

theorem conditions_of_control {m m' : Machine} (h : m'.control = m.control) : m'.conditions = m.conditions :=
  show m'.control.conditions = m.control.conditions from congrArg Machine.conditions h

theorem opCount_of_control {m m' : Machine} (h : m'.control = m.control) : m'.opCount = m.opCount :=
  show m'.control.opCount = m.control.opCount from congrArg Machine.opCount h

theorem cursor_of_control {m m' : Machine} (h : m'.control = m.control) : m'.cursor = m.cursor :=
  show m'.control.cursor = m.control.cursor from congrArg Machine.cursor h

/-- A view of the state that does not show the stacks. -/
def Blind {β : Type} (view : Machine → β) : Prop :=
  ∀ (m : Machine) (stack alt : List Bytes), view { m with stack := stack, alt := alt } = view m

/-- A part of the machine ends, also by a halt, in a state with a given view. -/
def Shows {β : Type} (view : Machine → β) (v : β) (x : Except Halt Machine) : Prop :=
  Ends (fun m => view m = v) (fun halt => view halt.machine = v) x

/-- A part of the machine ends, also by a halt, in a state with a given control. -/
def Keeps (c : Machine) (x : Except Halt Machine) : Prop :=
  Ends (fun m => m.control = c) (fun halt => halt.machine.control = c) x

section
variable {β : Type} {view : Machine → β} {env : Env} {v : β} {m : Machine} (hview : Blind view) (h : view m = v)
include hview h

/-! ### Parts -/

theorem pushAll_shows (items : List Bytes) : Shows view v (m.pushAll env items) :=
  (requireRoom_ends (fun _ => h) items.length).bind fun _ _ => (hview m _ _).trans h

theorem pushAllAlt_shows (items : List Bytes) : Shows view v (m.pushAllAlt env items) :=
  (requireRoom_ends (fun _ => h) items.length).bind fun _ _ => (hview m _ _).trans h

theorem push_shows (item : Bytes) : Shows view v (m.push env item) := pushAll_shows hview h [item]

theorem pop_shows (n : Nat) : Shows view v (m.pop n) := by
  refine (pop_ends (fun _ => h) n).mono fun m' hm => ?_
  rw [hm.2]
  exact (hview m _ _).trans h

theorem replace_shows (n : Nat) (item : Bytes) : Shows view v (m.replace n item) := by
  refine (replace_ends (fun _ => h) n item).mono fun m' hm => ?_
  rw [hm.2]
  exact (hview m _ _).trans h

theorem popVerify_shows (verification : Verification) : Shows view v (m.popVerify verification) := by
  refine (popVerify_ends (fun _ => h) verification).mono fun m' hm => ?_
  rw [hm]
  exact (hview m _ _).trans h

/-! ### Actions -/

theorem moveToTop_shows (depth count : Nat) : Shows view v (m.moveToTop env depth count) := by
  refine (requireDepth_ends (fun _ => h) _).bind fun _ _ => (pop_shows hview h depth).bind fun below hb => ?_
  have hmoved := (hview below (m.stack.take (depth - count) ++ below.stack) below.alt).trans hb
  exact pushAll_shows hview hmoved _

theorem pick_shows (remove : Bool) : Shows view v (m.pick env remove) := by
  refine (requireDepth_ends (fun _ => h) _).bind fun _ _ => (peek_ends (fun _ => h) 0).bind fun item _ => ?_
  refine (attempt_ends (fun _ => h) _).bind fun n _ => (pop_shows hview h 1).bind fun m' hm' => ?_
  split
  · refine (peek_ends (fun _ => hm') _).bind fun item _ => ?_
    have htaken := (hview m' (if remove then m'.stack.eraseIdx n.toNat else m'.stack) m'.alt).trans hm'
    exact push_shows hview htaken item
  · exact fail_ends (fun _ => hm') _

theorem equal_shows : Shows view v (m.equal env) := by
  refine (requireDepth_ends (fun _ => h) _).bind fun _ _ => (peek_ends (fun _ => h) 0).bind fun first _ => ?_
  refine (peek_ends (fun _ => h) 1).bind fun second _ => (pop_shows hview h 2).bind fun m' hm' => ?_
  exact push_shows hview hm' _

theorem numeric_shows (f : Numeric) : Shows view v (m.numeric env f) := by
  refine (requireDepth_ends (fun _ => h) _).bind fun _ _ => (attempt_ends (fun _ => h) _).bind fun args _ => ?_
  exact (attempt_ends (fun _ => h) _).bind fun result _ => replace_shows hview h _ result

omit hview in
theorem requireAlt_shows : Ends (fun _ => True) (fun halt : Halt => view halt.machine = v) m.requireAlt := by
  unfold requireAlt
  split
  · exact fail_ends (fun _ => h) _
  · trivial

theorem perform_shows (op : Opcode) {a : Action} (ha : a.isOnStacks = true) (hcheck : a.isCheck = false) :
    Shows view v (m.perform env op a) := by
  cases a with
  | openIf negated | otherwise | closeIf | codeSeparator => cases ha
  | checkSig | checkSigVerify | checkMultiSig | checkMultiSigVerify => cases hcheck
  | nop => exact h
  | verify => exact (requireDepth_ends (fun _ => h) _).bind fun _ _ => popVerify_shows hview h _
  | abort | invalid => exact fail_ends (fun _ => h) _
  | toAlt =>
    refine (requireDepth_ends (fun _ => h) _).bind fun _ _ => (peek_ends (fun _ => h) 0).bind fun item _ => ?_
    exact (pop_shows hview h 1).bind fun m' hm' => pushAllAlt_shows hview hm' _
  | fromAlt =>
    refine (requireAlt_shows h).bind fun _ _ => (popAlt_ends (fun _ => h)).bind fun r hr => push_shows hview ?_ r.1
    rw [hr.2]
    exact (hview m _ _).trans h
  | drop n => exact (requireDepth_ends (fun _ => h) _).bind fun _ _ => pop_shows hview h n
  | dup n | dupBelow n => exact (requireDepth_ends (fun _ => h) _).bind fun _ _ => pushAll_shows hview h _
  | rot n | swap n => exact moveToTop_shows hview h _ _
  | ifDup =>
    refine (requireDepth_ends (fun _ => h) _).bind fun _ _ => (peek_ends (fun _ => h) 0).bind fun item _ => ?_
    split
    · exact push_shows hview h item
    · exact h
  | depth => exact (attempt_ends (fun _ => h) _).bind fun item _ => push_shows hview h item
  | nip =>
    refine (requireDepth_ends (fun _ => h) _).bind fun _ _ => (peek_ends (fun _ => h) 0).bind fun item _ => ?_
    exact replace_shows hview h 2 item
  | tuck =>
    refine (requireDepth_ends (fun _ => h) _).bind fun _ _ => (peek_ends (fun _ => h) 0).bind fun item _ => ?_
    exact (requireRoom_ends (fun _ => h) 1).bind fun _ _ => (hview m _ _).trans h
  | pick remove => exact pick_shows hview h remove
  | size =>
    refine (requireDepth_ends (fun _ => h) _).bind fun _ _ => (peek_ends (fun _ => h) 0).bind fun top _ => ?_
    exact (attempt_ends (fun _ => h) _).bind fun item _ => push_shows hview h item
  | equal => exact equal_shows hview h
  | equalVerify => exact (equal_shows hview h).bind fun _ hm => popVerify_shows hview hm _
  | numeric f => exact numeric_shows hview h f
  | numEqualVerify => exact (numeric_shows hview h .equal).bind fun _ hm => popVerify_shows hview hm _
  | hash f =>
    refine (requireDepth_ends (fun _ => h) _).bind fun _ _ => (peek_ends (fun _ => h) 0).bind fun item _ => ?_
    exact replace_shows hview h 1 _
  | upgradeableNop => exact (attempt_ends (fun _ => h) _).bind fun _ _ => h

/-- The marks of blocks change the stack and the conditions only. -/
theorem perform_mark_shows (hconditions : ∀ (m : Machine) (cs : List Condition), view { m with conditions := cs } = view m)
    (op : Opcode) {a : Action} (ha : a.isPlain = false) : Shows view v (m.perform env op a) := by
  cases a with
  | openIf negated =>
    change Shows view v (Machine.openIf negated m)
    unfold Machine.openIf
    split
    · refine (requireDepth_ends (fun _ => h) _).bind fun _ _ => (peek_ends (fun _ => h) 0).bind fun item _ => ?_
      exact (pop_shows hview h 1).bind fun m' hm' => (hconditions m' _).trans hm'
    · exact (hconditions m _).trans h
  | otherwise =>
    change Shows view v m.otherwise
    unfold Machine.otherwise
    split
    · exact fail_ends (fun _ => h) _
    · exact (hconditions m _).trans h
  | closeIf =>
    change Shows view v m.closeIf
    unfold Machine.closeIf
    split
    · exact fail_ends (fun _ => h) _
    · exact (hconditions m _).trans h
  | _ => cases ha

end

section
variable {env : Env} {c m : Machine} (h : m.control = c)
include h

theorem popVerify_control (v : Verification) : Keeps c (m.popVerify v) := popVerify_shows (fun _ _ _ => rfl) h v

theorem checkSig_control : Keeps c (m.checkSig env) := by
  refine (requireDepth_ends (fun _ => h) _).bind fun _ _ => (peek_ends (fun _ => h) 0).bind fun key _ => ?_
  refine (peek_ends (fun _ => h) 1).bind fun sig _ => (attempt_ends (fun _ => h) _).bind fun code _ => ?_
  refine (checkOne_ends (fun _ => h) _ code sig key).bind fun r ⟨_, hr⟩ => replace_shows (fun _ _ _ => rfl) ?_ 2 _
  rw [hr]
  exact h

theorem perform_control (op : Opcode) {a : Action} (ha : a.isOnStacks = true) : Keeps c (m.perform env op a) := by
  cases hcheck : a.isCheck with
  | false => exact perform_shows (fun _ _ _ => rfl) h op ha hcheck
  | true =>
    cases a with
    | checkSig => exact checkSig_control h
    | checkSigVerify => exact (checkSig_control h).bind fun _ hm => popVerify_control hm _
    | checkMultiSig | checkMultiSigVerify => cases ha
    | _ => cases hcheck

end

section
variable {env : Env} {m m' : Machine}

theorem checkMultiSig_control (h : m.checkMultiSig env = .ok m') :
    m'.control = { m with opCount := m.opCount + Number.decode m.top }.control ∧
      m.opCount + Number.decode m.top ≤ env.limits.opsPerScript := by
  obtain ⟨keyItem, sigItem, dummy, keys, sigs, rest, code, good, m₁, hstack, hkeyCount, -, hlimit, -, -, -, hscan, -, rfl⟩ :=
    checkMultiSig_eq_ok.mp h
  obtain ⟨calls, rfl⟩ : ∃ calls, m₁ = _ := matchAll_calls hscan
  have htop : (keys.length : Int) = Number.decode m.top := by
    unfold top
    rw [hstack]
    exact (number_eq_ok.mp hkeyCount).2.2
  rw [← htop]
  exact ⟨rfl, hlimit⟩

end

end Machine

end SpendScript
