import SpendScript.Proofs.Marks

/-! # Open conditions

Conditions are opened in the branches of others. A condition is inactive exactly if it was opened where nothing was
executed, and an `OP_ELSE` does not change that, so that from the outermost condition inwards there are executing
ones, then at most one that is skipping, and inside of it inactive ones only (`Reaches.shaped`). -/

namespace SpendScript

open Machine

/-- Whether all conditions are executing. -/
def allExecuting (cs : List Condition) : Bool := cs.all (·.branch == .executing)

/-- A condition is inactive where the conditions around it are not all executing, and only there. -/
def Nested : List Condition → Prop
  | [] => True
  | c :: cs => (c.branch = .inactive ↔ allExecuting cs = false) ∧ Nested cs

/-- The branches of open conditions, from the outermost condition inwards. -/
def branches (cs : List Condition) : List Branch := (cs.map (·.branch)).reverse

/-- From the outermost condition inwards, executing conditions are followed by nothing or by one that is skipping and
    then inactive ones. -/
def Shaped (cs : List Condition) : Prop :=
  ∃ outer, branches cs = List.replicate outer .executing ∨
    ∃ inner, branches cs = List.replicate outer .executing ++ .skipping :: List.replicate inner .inactive

/-! ### The shape of nested conditions -/

theorem allExecuting_cons (c : Condition) (cs : List Condition) :
    allExecuting (c :: cs) = (c.branch == .executing && allExecuting cs) := rfl

theorem branches_cons (c : Condition) (cs : List Condition) : branches (c :: cs) = branches cs ++ [c.branch] :=
  List.reverse_cons

theorem branches_of_allExecuting {cs : List Condition} (h : allExecuting cs = true) :
    branches cs = List.replicate cs.length .executing := by
  induction cs with
  | nil => rfl
  | cons c cs ih =>
    rw [allExecuting_cons, Bool.and_eq_true, beq_iff_eq] at h
    rw [branches_cons, ih h.2, h.1, List.length_cons, List.replicate_succ']

theorem Nested.branches_of_not_allExecuting {cs : List Condition} (hn : Nested cs) (h : allExecuting cs = false) :
    ∃ outer inner,
      branches cs = List.replicate outer .executing ++ .skipping :: List.replicate inner .inactive := by
  induction cs with
  | nil => cases h
  | cons c cs ih =>
    rw [branches_cons]
    cases hcs : allExecuting cs with
    | true =>
      -- the innermost condition is the one that is skipping
      have hactive : c.branch ≠ .inactive := fun hc => Bool.false_ne_true ((hn.1.mp hc).symm.trans hcs)
      have hskip : c.branch = .skipping := by
        rw [allExecuting_cons, hcs, Bool.and_true, beq_eq_false_iff_ne] at h
        cases hb : c.branch with
        | executing => exact absurd hb h
        | skipping => rfl
        | inactive => exact absurd hb hactive
      exact ⟨cs.length, 0, by rw [branches_of_allExecuting hcs, hskip]; rfl⟩
    | false =>
      obtain ⟨outer, inner, hshape⟩ := ih hn.2 hcs
      refine ⟨outer, inner + 1, ?_⟩
      rw [hshape, hn.1.mpr hcs, List.replicate_succ', List.append_assoc, List.cons_append]

theorem Nested.shaped {cs : List Condition} (hn : Nested cs) : Shaped cs := by
  cases h : allExecuting cs with
  | true => exact ⟨cs.length, .inl (branches_of_allExecuting h)⟩
  | false =>
    obtain ⟨outer, inner, hshape⟩ := hn.branches_of_not_allExecuting h
    exact ⟨outer, .inr ⟨inner, hshape⟩⟩

/-! ### Steps and runs -/

theorem Branch.flip_eq_inactive_iff (b : Branch) : b.flip = .inactive ↔ b = .inactive := by
  cases b <;> decide

section
variable {env : Env} {m : Machine}

/-- The open conditions of an outcome are nested. -/
def EndsNested : Except Halt Machine → Prop :=
  Ends (fun m => Nested m.conditions) (fun halt => Nested halt.machine.conditions)

theorem inside_self : m.inside ⟨m.conditions, m.execute, []⟩ = m := by
  unfold inside
  rw [List.append_nil]

theorem endsNested_of_inside (hm : Nested m.conditions) {x : Except Halt Machine}
    (hx : x = Context.lift ⟨m.conditions, m.execute, []⟩ (inside ⟨m.conditions, m.execute, []⟩) x) : EndsNested x := by
  rw [hx]
  cases x with
  | ok m' => exact hm
  | error halt => exact hm

theorem openIf_nested (hm : Nested m.conditions) (hx : m.execute = allExecuting m.conditions) (negated : Bool) :
    EndsNested (openIf negated m) := by
  unfold openIf
  split
  · rename_i hexec
    have hcs : allExecuting m.conditions = true := hx.symm.trans hexec
    refine (requireDepth_ends (fun _ => hm) 1).bind fun _ _ => (peek_ends (fun _ => hm) 0).bind fun item _ => ?_
    refine (pop_ends (fun _ => hm) 1).bind fun m' hm' => ?_
    rw [hm'.2]
    refine ⟨⟨fun h => ?_, fun h => absurd (hcs.symm.trans h) (Ne.symm Bool.false_ne_true)⟩, hm⟩
    dsimp only at h
    split at h <;> cases h
  · rename_i hexec
    have hcs : allExecuting m.conditions = false := hx.symm.trans (eq_false_of_ne_true hexec)
    exact ⟨⟨fun _ => hcs, fun _ => rfl⟩, hm⟩

theorem otherwise_nested (hm : Nested m.conditions) : EndsNested m.otherwise := by
  unfold Machine.otherwise
  split
  · exact fail_ends (fun _ => hm) _
  · rename_i c cs hc
    rw [hc] at hm
    exact ⟨c.branch.flip_eq_inactive_iff.trans hm.1, hm.2⟩

theorem closeIf_nested (hm : Nested m.conditions) : EndsNested m.closeIf := by
  unfold closeIf
  split
  · exact fail_ends (fun _ => hm) _
  · rename_i c cs hc
    rw [hc] at hm
    exact hm.2

theorem Mark.act_nested (k : Mark) (hm : Nested m.conditions) (hx : m.execute = allExecuting m.conditions) :
    EndsNested (k.act m) := by
  cases k with
  | opens negated => exact openIf_nested hm hx negated
  | separates => exact otherwise_nested hm
  | closes => exact closeIf_nested hm

theorem act_nested (o : Operation) (hm : Nested m.conditions) (hx : m.execute = allExecuting m.conditions) :
    EndsNested (if m.execute then execute1 env o m else skip1 env o m) := by
  cases ho : o.mark? with
  | some k =>
    rw [Operation.eq_of_mark? ho, Mark.act_eq]
    exact k.act_nested hm hx
  | none =>
    split
    · refine endsNested_of_inside hm ?_
      rw [← execute1_inside _ m ho, inside_self]
    · rw [skip1_eq m ho]
      split
      · exact fail_ends (fun _ => hm) _
      · exact hm

theorem step_nested (o : Operation) (hm : Nested m.conditions) : EndsNested (m.step env o) :=
  step_ends (fun _ => hm) (fun _ _ => hm) fun _ => act_nested o hm rfl

theorem run_nested (ops : List Operation) (hm : Nested m.conditions) : EndsNested (ops.foldlM (step env) m) :=
  Ends.foldlM (fun _ o _ => step_nested o) hm

end

/-- A state that an evaluation of a script comes to: the one after some of its operations, or the one that a halt
    left. -/
def Machine.Reaches (env : Env) (script : Bytes) (m m' : Machine) : Prop :=
  ∃ ops, ops <+: (Script.listing script).ops ∧
    (ops.foldlM (step env) (m.begin script) = .ok m' ∨ ∃ f, ops.foldlM (step env) (m.begin script) = .error ⟨f, m'⟩)

theorem Machine.Reaches.shaped {env : Env} {script : Bytes} {m m' : Machine} (h : Reaches env script m m') :
    Shaped m'.conditions := by
  obtain ⟨ops, -, h⟩ := h
  have hrun : EndsNested (ops.foldlM (step env) (m.begin script)) := run_nested ops trivial
  rcases h with h | ⟨f, h⟩
  · rw [h] at hrun
    exact Nested.shaped hrun
  · rw [h] at hrun
    exact Nested.shaped hrun

end SpendScript
