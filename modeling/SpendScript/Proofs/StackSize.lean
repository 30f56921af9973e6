import SpendScript.Proofs.Outcome

/-! # The size of the stacks

Both stacks together never hold more items than the limit allows. Room is asked for only where items are put on a
stack; everything else must not add any. The bound holds after every operation, and of the state that a fault
leaves. -/

namespace SpendScript.Machine

/-- Both stacks together hold at most `limit` items. -/
def Within (limit : Int) (m : Machine) : Prop := (m.size : Int) ≤ limit

/-- A part of the machine keeps the stacks within the limit, whether or not it halts. -/
def StaysWithin (limit : Int) (x : Except Halt Machine) : Prop :=
  Ends (Within limit) (fun halt => Within limit halt.machine) x

section
variable {limit : Int} {m m' : Machine}

theorem Within.of_le (h : Within limit m)
    (hs : m'.stack.length + m'.alt.length ≤ m.stack.length + m.alt.length) : Within limit m' := by
  unfold Within size at h ⊢
  omega

theorem Within.of_eq (h : Within limit m) (hs : m'.stack = m.stack) (ha : m'.alt = m.alt) : Within limit m' :=
  h.of_le (Nat.le_of_eq (by rw [hs, ha]))

theorem Within.drop (h : Within limit m) (n : Nat) : Within limit { m with stack := m.stack.drop n } :=
  h.of_le (by simp only [List.length_drop]; omega)

end

/-! ### Actions -/

section
variable {env : Env} {m : Machine} (h : Within env.limits.stackSize m)
include h

theorem pushAll_within (items : List Bytes) : StaysWithin env.limits.stackSize (m.pushAll env items) := by
  refine (requireRoom_ends (fun _ => h) items.length).bind fun _ hr => ?_
  show (_ : Int) ≤ _
  unfold size at hr ⊢
  simp only [List.length_append]
  omega

theorem pushAllAlt_within (items : List Bytes) : StaysWithin env.limits.stackSize (m.pushAllAlt env items) := by
  refine (requireRoom_ends (fun _ => h) items.length).bind fun _ hr => ?_
  show (_ : Int) ≤ _
  unfold size at hr ⊢
  simp only [List.length_append]
  omega

theorem push_within (item : Bytes) : StaysWithin env.limits.stackSize (m.push env item) := pushAll_within h [item]

theorem pop_within (n : Nat) : StaysWithin env.limits.stackSize (m.pop n) :=
  (pop_ends (fun _ => h) n).mono fun _ hm => hm.2 ▸ h.drop n

theorem replace_within {n : Nat} (hn : 0 < n) (item : Bytes) : StaysWithin env.limits.stackSize (m.replace n item) := by
  refine (replace_ends (fun _ => h) n item).mono fun m' hm => ?_
  rw [hm.2]
  refine h.of_le ?_
  simp only [List.length_cons, List.length_drop]
  omega

theorem popVerify_within (v : Verification) : StaysWithin env.limits.stackSize (m.popVerify v) :=
  (popVerify_ends (fun _ => h) v).mono fun _ hm => hm ▸ h.drop 1

theorem bump_within (count : Int) : StaysWithin env.limits.stackSize (m.bump env count) := by
  unfold bump
  dsimp only
  split
  · exact h.of_eq rfl rfl
  · exact h.of_eq rfl rfl

theorem moveToTop_within (depth count : Nat) : StaysWithin env.limits.stackSize (m.moveToTop env depth count) := by
  refine (requireDepth_ends (fun _ => h) _).bind fun _ _ => (pop_ends (fun _ => h) depth).bind fun below hb => ?_
  obtain ⟨-, rfl⟩ := hb
  refine pushAll_within (h.of_le ?_) _
  simp only [List.length_append, List.length_take, List.length_drop]
  omega

theorem pick_within (remove : Bool) : StaysWithin env.limits.stackSize (m.pick env remove) := by
  refine (requireDepth_ends (fun _ => h) _).bind fun _ _ => (peek_ends (fun _ => h) 0).bind fun item _ => ?_
  refine (attempt_ends (fun _ => h) _).bind fun n _ => (pop_within h 1).bind fun m' hm' => ?_
  split
  · refine (peek_ends (fun _ => hm') _).bind fun item _ => push_within (hm'.of_le ?_) item
    dsimp only
    split
    · have := List.length_eraseIdx_le m'.stack n.toNat
      omega
    · exact Nat.le_refl _
  · exact fail_ends (fun _ => hm') _

theorem equal_within : StaysWithin env.limits.stackSize (m.equal env) := by
  refine (requireDepth_ends (fun _ => h) _).bind fun _ _ => (peek_ends (fun _ => h) 0).bind fun first _ => ?_
  refine (peek_ends (fun _ => h) 1).bind fun second _ => (pop_within h 2).bind fun m' hm' => ?_
  exact push_within hm' _

theorem numeric_within (f : Numeric) : StaysWithin env.limits.stackSize (m.numeric env f) := by
  refine (requireDepth_ends (fun _ => h) _).bind fun _ _ => (attempt_ends (fun _ => h) _).bind fun args _ => ?_
  refine (attempt_ends (fun _ => h) _).bind fun result _ => replace_within h ?_ result
  cases f <;> decide

theorem openIf_within (negated : Bool) : StaysWithin env.limits.stackSize (m.openIf negated) := by
  unfold openIf
  split
  · refine (requireDepth_ends (fun _ => h) _).bind fun _ _ => (peek_ends (fun _ => h) 0).bind fun item _ => ?_
    exact (pop_within h 1).bind fun m' hm' => hm'.of_eq rfl rfl
  · exact h.of_eq rfl rfl

theorem otherwise_within : StaysWithin env.limits.stackSize m.otherwise := by
  unfold otherwise
  split
  · exact fail_ends (fun _ => h) _
  · exact h.of_eq rfl rfl

theorem closeIf_within : StaysWithin env.limits.stackSize m.closeIf := by
  unfold closeIf
  split
  · exact fail_ends (fun _ => h) _
  · exact h.of_eq rfl rfl

theorem checkSig_within : StaysWithin env.limits.stackSize (m.checkSig env) := by
  refine (requireDepth_ends (fun _ => h) _).bind fun _ _ => (peek_ends (fun _ => h) 0).bind fun key _ => ?_
  refine (peek_ends (fun _ => h) 1).bind fun sig _ => (attempt_ends (fun _ => h) _).bind fun code _ => ?_
  refine (checkOne_ends (fun _ => h) _ code sig key).bind fun r ⟨_, hr⟩ => replace_within ?_ (by decide) _
  rw [hr]
  exact h

theorem matchAll_within (code : Bytes) (sigs keys : List Bytes) :
    Ends (fun r : Bool × Machine => Within env.limits.stackSize r.2)
      (fun halt => Within env.limits.stackSize halt.machine) (matchAll env code sigs keys m) := by
  refine matchAll_ends (fun m h sig key => (checkOne_ends (fun _ => h) _ code sig key).mono fun r ⟨_, hr⟩ => ?_) h sigs keys
  rw [hr]
  exact h

theorem checkMultiSig_within : StaysWithin env.limits.stackSize (m.checkMultiSig env) := by
  refine (requireDepth_ends (fun _ => h) _).bind fun _ _ => (peek_ends (fun _ => h) 0).bind fun keyItem _ => ?_
  refine (attempt_ends (fun _ => h) _).bind fun keyCount _ => (attempt_ends (fun _ => h) _).bind fun _ _ => ?_
  refine (bump_within h keyCount).bind fun m h => (requireDepth_ends (fun _ => h) _).bind fun _ _ => ?_
  refine (peek_ends (fun _ => h) _).bind fun sigItem _ => (attempt_ends (fun _ => h) _).bind fun sigCount _ => ?_
  split
  · exact fail_ends (fun _ => h) _
  · refine (requireDepth_ends (fun _ => h) _).bind fun _ _ => (attempt_ends (fun _ => h) _).bind fun code _ => ?_
    refine (matchAll_within h code _ _).bind fun r h => (pop_within h _).bind fun m h => ?_
    refine (peek_ends (fun _ => h) 0).bind fun dummy _ => (attempt_ends (fun _ => h) _).bind fun _ _ => ?_
    exact replace_within h (by decide) _

theorem perform_within (op : Opcode) (a : Action) : StaysWithin env.limits.stackSize (m.perform env op a) := by
  cases a with
  | nop => exact h
  | openIf negated => exact openIf_within h negated
  | otherwise => exact otherwise_within h
  | closeIf => exact closeIf_within h
  | verify => exact (requireDepth_ends (fun _ => h) _).bind fun _ _ => popVerify_within h _
  | abort | invalid => exact fail_ends (fun _ => h) _
  | toAlt =>
    refine (requireDepth_ends (fun _ => h) _).bind fun _ _ => (peek_ends (fun _ => h) 0).bind fun item _ => ?_
    exact (pop_within h 1).bind fun m' hm' => pushAllAlt_within hm' _
  | fromAlt =>
    unfold perform
    have alt : Ends (fun _ => True) (fun halt : Halt => Within env.limits.stackSize halt.machine) m.requireAlt := by
      unfold requireAlt
      split
      · exact fail_ends (fun _ => h) _
      · trivial
    refine alt.bind fun _ _ => (popAlt_ends (fun _ => h)).bind fun r hr => push_within ?_ r.1
    obtain ⟨ha, hr⟩ := hr
    rw [hr]
    refine h.of_le ?_
    rw [ha, List.length_cons]
    dsimp only
    omega
  | drop n => exact (requireDepth_ends (fun _ => h) _).bind fun _ _ => pop_within h n
  | dup n | dupBelow n => exact (requireDepth_ends (fun _ => h) _).bind fun _ _ => pushAll_within h _
  | rot n | swap n => exact moveToTop_within h _ _
  | ifDup =>
    refine (requireDepth_ends (fun _ => h) _).bind fun _ _ => (peek_ends (fun _ => h) 0).bind fun item _ => ?_
    split
    · exact push_within h item
    · exact h
  | depth => exact (attempt_ends (fun _ => h) _).bind fun item _ => push_within h item
  | nip =>
    refine (requireDepth_ends (fun _ => h) _).bind fun _ _ => (peek_ends (fun _ => h) 0).bind fun item _ => ?_
    exact replace_within h (by decide) item
  | tuck =>
    refine (requireDepth_ends (fun _ => h) _).bind fun _ _ => (peek_ends (fun _ => h) 0).bind fun item _ => ?_
    refine (requireRoom_ends (fun _ => h) 1).bind fun _ hr => ?_
    show (_ : Int) ≤ _
    have := List.length_insertIdx_le_succ (l := m.stack) (i := 2) (x := item)
    unfold size at hr ⊢
    dsimp only
    omega
  | pick remove => exact pick_within h remove
  | size =>
    refine (requireDepth_ends (fun _ => h) _).bind fun _ _ => (peek_ends (fun _ => h) 0).bind fun top _ => ?_
    exact (attempt_ends (fun _ => h) _).bind fun item _ => push_within h item
  | equal => exact equal_within h
  | equalVerify => exact (equal_within h).bind fun _ hm => popVerify_within hm _
  | numeric f => exact numeric_within h f
  | numEqualVerify => exact (numeric_within h .equal).bind fun _ hm => popVerify_within hm _
  | hash f =>
    refine (requireDepth_ends (fun _ => h) _).bind fun _ _ => (peek_ends (fun _ => h) 0).bind fun item _ => ?_
    exact replace_within h (by decide) _
  | codeSeparator => exact h.of_eq rfl rfl
  | checkSig => exact checkSig_within h
  | checkSigVerify => exact (checkSig_within h).bind fun _ hm => popVerify_within hm _
  | checkMultiSig => exact checkMultiSig_within h
  | checkMultiSigVerify => exact (checkMultiSig_within h).bind fun _ hm => popVerify_within hm _
  | upgradeableNop => exact (attempt_ends (fun _ => h) _).bind fun _ _ => h

/-! ### Operations -/

theorem step_within (op : Operation) : StaysWithin env.limits.stackSize (m.step env op) := by
  have hbegun : ∀ n, Within env.limits.stackSize (m.begun op n) := fun _ => h.of_eq rfl rfl
  refine step_ends (fun _ => h.of_eq rfl rfl) (fun _ n => hbegun n) fun n => ?_
  split
  · unfold execute1
    split
    · exact (attempt_ends (fun _ => hbegun n) _).bind fun _ _ => push_within (hbegun n) _
    · exact perform_within (hbegun n) _ _
  · unfold skip1
    split
    · exact perform_within (hbegun n) _ _
    · exact hbegun n

end

end SpendScript.Machine
