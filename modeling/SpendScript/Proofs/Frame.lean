import SpendScript.Proofs.Outcome

/-! # What operations leave alone

Apart from `OP_IF`, `OP_NOTIF`, `OP_ELSE` and `OP_ENDIF`, no operation reads or changes the open conditions, and none
reads the signature checks that have been made. Such an operation therefore does the same inside any conditions and
after any checks (`perform_inside`). -/

namespace SpendScript

/-- What surrounds the operations of a branch: the open conditions, and the signature checks made before. -/
structure Context where
  conditions : List Condition
  execute : Bool
  past : List SigCall

/-- A state in a context. -/
def Machine.inside (c : Context) (m : Machine) : Machine :=
  { m with conditions := c.conditions, execute := c.execute, calls := m.calls ++ c.past }

/-- An outcome with its result changed and the state of its halt put in a context. -/
def Context.lift {α : Type} (c : Context) (f : α → α) : Except Halt α → Except Halt α
  | .ok a => .ok (f a)
  | .error halt => .error ⟨halt.fault, halt.machine.inside c⟩

theorem Context.lift_bind {α β : Type} {c : Context} {f : α → α} {g : β → β} {x x' : Except Halt α}
    {k k' : α → Except Halt β} (hx : x' = c.lift f x) (hk : ∀ a, k' (f a) = c.lift g (k a)) :
    (x' >>= k') = c.lift g (x >>= k) := by
  rw [hx]
  cases x with
  | error halt => rfl
  | ok a => exact hk a

theorem Context.lift_ite {α : Type} {c : Context} {f : α → α} {p : Prop} [Decidable p] {x x' y y' : Except Halt α}
    (hx : x' = c.lift f x) (hy : y' = c.lift f y) :
    (if p then x' else y') = c.lift f (if p then x else y) := by
  by_cases hp : p
  · rw [if_pos hp, if_pos hp, hx]
  · rw [if_neg hp, if_neg hp, hy]

namespace Machine
open Context
variable (c : Context) (env : Env) (m : Machine)

@[simp] theorem stack_inside : (m.inside c).stack = m.stack := rfl

@[simp] theorem alt_inside : (m.inside c).alt = m.alt := rfl

/-! ### Parts -/

theorem fail_inside {α : Type} (f : Fault) (g : α → α) : (m.inside c).fail f = c.lift g (m.fail f) := rfl

theorem attempt_inside {α : Type} (x : Except Fault α) : (m.inside c).attempt x = c.lift id (m.attempt x) := by
  cases x <;> rfl

theorem requireDepth_inside (depth : Int) : (m.inside c).requireDepth depth = c.lift id (m.requireDepth depth) :=
  lift_ite (fail_inside c m _ _) rfl

theorem requireAlt_inside : (m.inside c).requireAlt = c.lift id m.requireAlt :=
  lift_ite (fail_inside c m _ _) rfl

theorem requireRoom_inside (count : Nat) : (m.inside c).requireRoom env count = c.lift id (m.requireRoom env count) :=
  lift_ite (fail_inside c m _ _) rfl

theorem peek_inside (i : Nat) : (m.inside c).peek i = c.lift id (m.peek i) := by
  unfold peek
  rw [stack_inside]
  cases m.stack[i]? <;> rfl

theorem pop_inside (n : Nat) : (m.inside c).pop n = c.lift (inside c) (m.pop n) :=
  lift_ite rfl (fail_inside c m _ _)

theorem replace_inside (n : Nat) (item : Bytes) :
    (m.inside c).replace n item = c.lift (inside c) (m.replace n item) :=
  lift_bind (pop_inside c m n) fun _ => rfl

theorem popAlt_inside : (m.inside c).popAlt = c.lift (fun r => (r.1, r.2.inside c)) m.popAlt := by
  unfold popAlt
  rw [alt_inside]
  cases m.alt <;> rfl

theorem pushAll_inside (items : List Bytes) :
    (m.inside c).pushAll env items = c.lift (inside c) (m.pushAll env items) :=
  lift_bind (requireRoom_inside c env m items.length) fun _ => rfl

theorem pushAllAlt_inside (items : List Bytes) :
    (m.inside c).pushAllAlt env items = c.lift (inside c) (m.pushAllAlt env items) :=
  lift_bind (requireRoom_inside c env m items.length) fun _ => rfl

theorem push_inside (item : Bytes) : (m.inside c).push env item = c.lift (inside c) (m.push env item) :=
  pushAll_inside c env m [item]

theorem bump_inside (count : Int) : (m.inside c).bump env count = c.lift (inside c) (m.bump env count) :=
  lift_ite (fail_inside c { m with opCount := m.opCount + count } _ _) rfl

theorem popVerify_inside (v : Verification) : (m.inside c).popVerify v = c.lift (inside c) (m.popVerify v) :=
  lift_bind (peek_inside c m 0) fun _ => lift_ite (pop_inside c m 1) (fail_inside c m _ _)

/-! ### Signature checks -/

theorem checkOne_inside (strict : Flags) (code sig key : Bytes) :
    (m.inside c).checkOne env strict code sig key =
      c.lift (fun r => (r.1, r.2.inside c)) (m.checkOne env strict code sig key) := by
  refine lift_bind (attempt_inside c m _) fun parsed => lift_bind (attempt_inside c m _) fun _ => ?_
  cases parsed with
  | none => rfl
  | some txSig => cases env.sigCheck <;> rfl

theorem checkSig_inside : (m.inside c).checkSig env = c.lift (inside c) (m.checkSig env) := by
  refine lift_bind (requireDepth_inside c m 2) fun _ => lift_bind (peek_inside c m 0) fun key => ?_
  refine lift_bind (peek_inside c m 1) fun sig => lift_bind (attempt_inside c m _) fun code => ?_
  exact lift_bind (checkOne_inside c env m _ code sig key) fun r => replace_inside c r.2 2 _

theorem matchAll_inside (code : Bytes) (sigs keys : List Bytes) : matchAll env code sigs keys (m.inside c) =
    c.lift (fun r => (r.1, r.2.inside c)) (matchAll env code sigs keys m) := by
  induction keys generalizing sigs m with
  | nil => cases sigs <;> rfl
  | cons key keys ih =>
    cases sigs with
    | nil => rfl
    | cons sig sigs =>
      unfold matchAll
      exact lift_ite rfl (lift_bind (checkOne_inside c env m _ code sig key) fun r => ih r.2 _)

theorem checkMultiSig_inside : (m.inside c).checkMultiSig env = c.lift (inside c) (m.checkMultiSig env) := by
  refine lift_bind (requireDepth_inside c m 1) fun _ => lift_bind (peek_inside c m 0) fun keyItem => ?_
  refine lift_bind (attempt_inside c m _) fun keyCount => lift_bind (attempt_inside c m _) fun _ => ?_
  refine lift_bind (bump_inside c env m keyCount) fun m => lift_bind (requireDepth_inside c m _) fun _ => ?_
  refine lift_bind (peek_inside c m _) fun sigItem => lift_bind (attempt_inside c m _) fun sigCount => ?_
  refine lift_ite (fail_inside c m _ _) (lift_bind (requireDepth_inside c m _) fun _ => ?_)
  refine lift_bind (attempt_inside c m _) fun code => ?_
  refine lift_bind (matchAll_inside c env m code _ _) fun r => lift_bind (pop_inside c r.2 _) fun m => ?_
  refine lift_bind (peek_inside c m 0) fun dummy => lift_bind (attempt_inside c m _) fun _ => ?_
  exact replace_inside c m 1 _

/-! ### Actions -/

theorem moveToTop_inside (depth count : Nat) :
    (m.inside c).moveToTop env depth count = c.lift (inside c) (m.moveToTop env depth count) := by
  refine lift_bind (requireDepth_inside c m depth) fun _ => lift_bind (pop_inside c m depth) fun below => ?_
  exact pushAll_inside c env { below with stack := m.stack.take (depth - count) ++ below.stack } _

theorem pick_inside (remove : Bool) : (m.inside c).pick env remove = c.lift (inside c) (m.pick env remove) := by
  refine lift_bind (requireDepth_inside c m 2) fun _ => lift_bind (peek_inside c m 0) fun item => ?_
  refine lift_bind (attempt_inside c m _) fun n => lift_bind (pop_inside c m 1) fun m => ?_
  refine lift_ite (lift_bind (peek_inside c m _) fun item => ?_) (fail_inside c m _ _)
  exact push_inside c env { m with stack := if remove then m.stack.eraseIdx n.toNat else m.stack } item

theorem equal_inside : (m.inside c).equal env = c.lift (inside c) (m.equal env) := by
  refine lift_bind (requireDepth_inside c m 2) fun _ => lift_bind (peek_inside c m 0) fun first => ?_
  refine lift_bind (peek_inside c m 1) fun second => lift_bind (pop_inside c m 2) fun m => ?_
  exact push_inside c env m _

theorem numeric_inside (f : Numeric) : (m.inside c).numeric env f = c.lift (inside c) (m.numeric env f) := by
  refine lift_bind (requireDepth_inside c m _) fun _ => lift_bind (attempt_inside c m _) fun args => ?_
  exact lift_bind (attempt_inside c m _) fun result => replace_inside c m _ result

end Machine

/-- Whether an action is none of those on conditions. -/
def Action.isPlain : Action → Bool
  | openIf _ | otherwise | closeIf => false
  | _ => true

namespace Machine
open Context
variable (c : Context) (env : Env) (m : Machine)

/-- An action other than those on conditions does the same in any context. -/
theorem perform_inside (op : Opcode) {a : Action} (ha : a.isPlain = true) :
    (m.inside c).perform env op a = c.lift (inside c) (m.perform env op a) := by
  cases a with
  | nop | codeSeparator => rfl
  | openIf negated | otherwise | closeIf => cases ha
  | verify => exact lift_bind (requireDepth_inside c m 1) fun _ => popVerify_inside c m _
  | abort | invalid => exact fail_inside c m _ _
  | toAlt =>
    refine lift_bind (requireDepth_inside c m 1) fun _ => lift_bind (peek_inside c m 0) fun item => ?_
    exact lift_bind (pop_inside c m 1) fun m => pushAllAlt_inside c env m _
  | fromAlt =>
    refine lift_bind (requireAlt_inside c m) fun _ => lift_bind (popAlt_inside c m) fun r => ?_
    exact push_inside c env r.2 r.1
  | drop n => exact lift_bind (requireDepth_inside c m n) fun _ => pop_inside c m n
  | dup n | dupBelow n => exact lift_bind (requireDepth_inside c m _) fun _ => pushAll_inside c env m _
  | rot n | swap n => exact moveToTop_inside c env m _ _
  | ifDup =>
    refine lift_bind (requireDepth_inside c m 1) fun _ => lift_bind (peek_inside c m 0) fun item => ?_
    exact lift_ite (push_inside c env m item) rfl
  | depth => exact lift_bind (attempt_inside c m _) fun item => push_inside c env m item
  | nip =>
    refine lift_bind (requireDepth_inside c m 2) fun _ => lift_bind (peek_inside c m 0) fun item => ?_
    exact replace_inside c m 2 item
  | tuck =>
    refine lift_bind (requireDepth_inside c m 2) fun _ => lift_bind (peek_inside c m 0) fun item => ?_
    exact lift_bind (requireRoom_inside c env m 1) fun _ => rfl
  | pick remove => exact pick_inside c env m remove
  | size =>
    refine lift_bind (requireDepth_inside c m 1) fun _ => lift_bind (peek_inside c m 0) fun top => ?_
    exact lift_bind (attempt_inside c m _) fun item => push_inside c env m item
  | equal => exact equal_inside c env m
  | equalVerify => exact lift_bind (equal_inside c env m) fun m => popVerify_inside c m _
  | numeric f => exact numeric_inside c env m f
  | numEqualVerify => exact lift_bind (numeric_inside c env m .equal) fun m => popVerify_inside c m _
  | hash f =>
    refine lift_bind (requireDepth_inside c m 1) fun _ => lift_bind (peek_inside c m 0) fun item => ?_
    exact replace_inside c m 1 _
  | checkSig => exact checkSig_inside c env m
  | checkSigVerify => exact lift_bind (checkSig_inside c env m) fun m => popVerify_inside c m _
  | checkMultiSig => exact checkMultiSig_inside c env m
  | checkMultiSigVerify => exact lift_bind (checkMultiSig_inside c env m) fun m => popVerify_inside c m _
  | upgradeableNop => exact lift_bind (attempt_inside c m _) fun _ => rfl

end Machine

end SpendScript
