import SpendScript.Proofs.OpenConditions

/-! # Scripts as trees of blocks

A machine knows of the blocks around an operation only the open conditions, each with what becomes of its branch.
Run over the operations of a tree it does what the evaluation of the tree does (`Block.tracks_run`,
`Segments.tracks_run`). -/

namespace SpendScript

open Machine Context

/-- An outcome of a machine is that of the evaluation of a tree, up to the open conditions: after a success they are
    `cs`. -/
inductive Tracks (cs : List Condition) : Except Halt Machine → Except Halt Machine → Prop
  | ok (m : Machine) (x : Bool) : Tracks cs (.ok (m.inside ⟨cs, x, []⟩)) (.ok m)
  | halt (f : Fault) (m : Machine) (c : List Condition) (x : Bool) :
    Tracks cs (.error ⟨f, m.inside ⟨c, x, []⟩⟩) (.error ⟨f, m⟩)

namespace Tracks
variable {cs cs' : List Condition} {flat tree : Except Halt Machine}

theorem bind {k k' : Machine → Except Halt Machine} (h : Tracks cs flat tree)
    (hk : ∀ m x, Tracks cs' (k' (m.inside ⟨cs, x, []⟩)) (k m)) : Tracks cs' (flat >>= k') (tree >>= k) := by
  cases h with
  | ok m x => exact hk m x
  | halt f m c x => exact .halt f m c x

theorem lift_bind {α : Type} {c : List Condition} {x : Bool} {f : α → α} {y y' : Except Halt α}
    {k k' : α → Except Halt Machine} (hy : y' = Context.lift ⟨c, x, []⟩ f y) (hk : ∀ a, Tracks cs (k' (f a)) (k a)) :
    Tracks cs (y' >>= k') (y >>= k) := by
  rw [hy]
  cases y with
  | ok a => exact hk a
  | error halt => exact .halt halt.fault halt.machine c x

end Tracks

/-! ### One operation -/

section
variable (c : Context) {env : Env} (m : Machine) (o : Operation)

theorem vet_bind (k : Machine → Except Halt Machine) : (m.vet env o >>= k) =
    checkItem env o (m.advance o) >>= fun _ => count env o (m.advance o) >>= fun m =>
      if o.opcode.isDisabled then m.fail (.disabledOpcode o.opcode) else k m := by
  unfold vet
  rw [bind_assoc]
  congr 1
  funext _
  rw [bind_assoc]
  congr 1
  funext m
  cases o.opcode.isDisabled <;> rfl

/-- What a step does, after what every operation is subject to, goes by the open conditions. -/
theorem step_tracks {cs cs' : List Condition} {k k' : Machine → Except Halt Machine}
    (hk : ∀ m, Tracks cs' ((if allExecuting cs then execute1 env o (m.inside ⟨cs, allExecuting cs, []⟩)
      else skip1 env o (m.inside ⟨cs, allExecuting cs, []⟩)) >>= k') (k m)) (x : Bool) :
    Tracks cs' ((m.inside ⟨cs, x, []⟩).step env o >>= k') (m.vet env o >>= k) := by
  rw [vet_bind]
  unfold step
  rw [bind_assoc]
  refine Tracks.lift_bind (checkItem_inside ⟨cs, x, []⟩ (m.advance o) o) fun _ => ?_
  rw [bind_assoc]
  refine Tracks.lift_bind (count_inside ⟨cs, allExecuting cs, []⟩ (m.advance o) o) fun m => ?_
  cases o.opcode.isDisabled with
  | true => exact .halt _ m cs _
  | false => exact hk m

end

section
variable {env : Env} {cs cs' : List Condition} {k' : Machine → Except Halt Machine}

theorem step_executed {o : Operation} {k : Machine → Except Halt Machine} (hcs : allExecuting cs = true)
    (ho : o.mark? = none) (hk : ∀ m x, Tracks cs' (k' (m.inside ⟨cs, x, []⟩)) (k m)) (m : Machine) (x : Bool) :
    Tracks cs' ((m.inside ⟨cs, x, []⟩).step env o >>= k') (m.vet env o >>= fun m => m.execute1 env o >>= k) := by
  refine step_tracks m o (fun m => ?_) x
  rw [hcs, if_pos rfl]
  exact Tracks.lift_bind (execute1_inside _ m ho) fun m => hk m true

theorem step_skipped {o : Operation} {k : Machine → Except Halt Machine} (hcs : allExecuting cs = false)
    (ho : o.mark? = none) (hk : ∀ m x, Tracks cs' (k' (m.inside ⟨cs, x, []⟩)) (k m)) (m : Machine) (x : Bool) :
    Tracks cs' ((m.inside ⟨cs, x, []⟩).step env o >>= k') (m.passOver env o >>= k) := by
  unfold passOver
  rw [bind_assoc]
  refine step_tracks m o (fun m => ?_) x
  rw [hcs, if_neg Bool.false_ne_true, skip1_eq _ ho]
  exact Tracks.lift_bind (lift_ite (fail_inside _ m _ _) rfl) fun m => hk m false

theorem step_separates {c : Condition} {k : Machine → Except Halt Machine}
    (hk : ∀ m x, Tracks cs' (k' (m.inside ⟨c.onElse :: cs, x, []⟩)) (k m)) (m : Machine) (x : Bool) :
    Tracks cs' ((m.inside ⟨c :: cs, x, []⟩).step env Mark.separates.operation >>= k')
      (m.vet env Mark.separates.operation >>= k) := by
  refine step_tracks m _ (fun m => ?_) x
  rw [Mark.act_eq]
  exact hk m _

theorem step_closes {c : Condition} {k : Machine → Except Halt Machine}
    (hk : ∀ m x, Tracks cs' (k' (m.inside ⟨cs, x, []⟩)) (k m)) (m : Machine) (x : Bool) :
    Tracks cs' ((m.inside ⟨c :: cs, x, []⟩).step env Mark.closes.operation >>= k')
      (m.vet env Mark.closes.operation >>= k) := by
  refine step_tracks m _ (fun m => ?_) x
  rw [Mark.act_eq]
  exact hk m _

theorem step_opens_skipped {negated : Bool} {k : Machine → Except Halt Machine} (hcs : allExecuting cs = false)
    (hk : ∀ m x, Tracks cs' (k' (m.inside ⟨⟨negated, .inactive⟩ :: cs, x, []⟩)) (k m)) (m : Machine) (x : Bool) :
    Tracks cs' ((m.inside ⟨cs, x, []⟩).step env (Mark.operation (.opens negated)) >>= k')
      (m.vet env (Mark.operation (.opens negated)) >>= k) := by
  refine step_tracks m _ (fun m => ?_) x
  rw [Mark.act_eq, hcs]
  exact hk m false

theorem step_opens {negated : Bool} {k : Bool × Machine → Except Halt Machine} (hcs : allExecuting cs = true)
    (hk : ∀ value m x, Tracks cs'
      (k' (m.inside ⟨⟨negated, if value != negated then .executing else .skipping⟩ :: cs, x, []⟩)) (k (value, m)))
    (m : Machine) (x : Bool) :
    Tracks cs' ((m.inside ⟨cs, x, []⟩).step env (Mark.operation (.opens negated)) >>= k')
      (m.test env negated >>= k) := by
  unfold test
  rw [bind_assoc]
  refine step_tracks m _ (fun m => ?_) x
  rw [Mark.act_eq, hcs]
  change Tracks cs' (openIf negated (m.inside ⟨cs, true, []⟩) >>= k') _
  have hx : (m.inside ⟨cs, true, []⟩).execute = true := rfl
  unfold openIf
  rw [if_pos hx]
  simp only [bind_assoc, pure_bind]
  refine Tracks.lift_bind (requireDepth_inside _ m 1) fun _ => Tracks.lift_bind (peek_inside _ m 0) fun item => ?_
  exact Tracks.lift_bind (pop_inside _ m 1) fun m => hk _ m true

end

/-! ### Trees -/

section
variable {env : Env}

-- The induction is on the tree, on blocks and on their segments at once, with the conditions around it general: they grow with
-- every block that is entered.
mutual

theorem Block.tracks_pass (b : Block) {cs : List Condition} (hcs : allExecuting cs = false) (m : Machine) (x : Bool) :
    Tracks cs (b.ops.foldlM (step env) (m.inside ⟨cs, x, []⟩)) (b.ops.foldlM (passOver env) m) := by
  cases b with
  | nil => exact .ok m x
  | op o plain rest => exact step_skipped hcs plain (rest.tracks_pass hcs) m x
  | cond negated segments rest =>
    unfold Block.ops
    rw [List.foldlM_cons, List.foldlM_cons, Mark.passOver_eq]
    refine step_opens_skipped hcs (fun m x => ?_) m x
    rw [List.foldlM_append, List.foldlM_append]
    refine (segments.tracks_pass m x).bind fun m x => ?_
    rw [List.foldlM_cons, List.foldlM_cons, Mark.passOver_eq]
    exact step_closes (rest.tracks_pass hcs) m x

theorem Segments.tracks_pass (t : Segments) {negated : Bool} {cs : List Condition} (m : Machine) (x : Bool) :
    Tracks (⟨negated, .inactive⟩ :: cs) (t.ops.foldlM (step env) (m.inside ⟨⟨negated, .inactive⟩ :: cs, x, []⟩))
      (t.ops.foldlM (passOver env) m) := by
  cases t with
  | last b => exact b.tracks_pass rfl m x
  | more b rest =>
    unfold Segments.ops
    rw [List.foldlM_append, List.foldlM_append]
    refine (b.tracks_pass rfl m x).bind fun m x => ?_
    rw [List.foldlM_cons, List.foldlM_cons, Mark.passOver_eq]
    exact step_separates rest.tracks_pass m x

end

/-- The branch of an open block in its segment of a given index. -/
def branchAt (taken : Bool) (index : Nat) : Branch :=
  if (index % 2 == 0) == taken then .executing else .skipping

theorem branchAt_zero (taken : Bool) : branchAt taken 0 = if taken then .executing else .skipping := by
  cases taken <;> rfl

theorem flip_branchAt (taken : Bool) (index : Nat) : (branchAt taken index).flip = branchAt taken (index + 1) := by
  unfold branchAt
  rcases Nat.mod_two_eq_zero_or_one index with h | h
  · rw [h, show (index + 1) % 2 = 1 by omega]
    cases taken <;> rfl
  · rw [h, show (index + 1) % 2 = 0 by omega]
    cases taken <;> rfl

/-- A segment is executed or passed over as the branch of its block says. -/
theorem Block.tracks_segment {b : Block} {negated taken : Bool} {index : Nat} {cs : List Condition}
    (hcs : allExecuting cs = true)
    (hb : ∀ cs, allExecuting cs = true → ∀ m x,
      Tracks cs (b.ops.foldlM (step env) (m.inside ⟨cs, x, []⟩)) (b.run env m)) (m : Machine) (x : Bool) :
    Tracks (⟨negated, branchAt taken index⟩ :: cs)
      (b.ops.foldlM (step env) (m.inside ⟨⟨negated, branchAt taken index⟩ :: cs, x, []⟩))
      (if (index % 2 == 0) == taken then b.run env m else b.pass env m) := by
  unfold branchAt
  cases (index % 2 == 0) == taken with
  | true => exact hb (⟨negated, .executing⟩ :: cs) hcs m x
  | false => exact b.tracks_pass rfl m x

mutual

theorem Block.tracks_run (b : Block) (cs : List Condition) (hcs : allExecuting cs = true) (m : Machine) (x : Bool) :
    Tracks cs (b.ops.foldlM (step env) (m.inside ⟨cs, x, []⟩)) (b.run env m) := by
  cases b with
  | nil => exact .ok m x
  | op o plain rest => exact step_executed hcs plain (rest.tracks_run cs hcs) m x
  | cond negated segments rest =>
    unfold Block.ops Block.run
    rw [List.foldlM_cons]
    refine step_opens hcs (fun value m x => ?_) m x
    rw [List.foldlM_append, ← branchAt_zero]
    refine segments.tracks_run hcs (value != negated) 0 (fun branch m x => ?_) m x
    rw [List.foldlM_cons]
    exact step_closes (rest.tracks_run cs hcs) m x

/-- The branch that the last segment leaves behind is none of the block's outside. -/
theorem Segments.tracks_run (t : Segments) {negated : Bool} {cs cs' : List Condition} (hcs : allExecuting cs = true)
    (taken : Bool) (index : Nat) {k k' : Machine → Except Halt Machine}
    (hk : ∀ branch m x, Tracks cs' (k' (m.inside ⟨⟨negated, branch⟩ :: cs, x, []⟩)) (k m)) (m : Machine) (x : Bool) :
    Tracks cs' (t.ops.foldlM (step env) (m.inside ⟨⟨negated, branchAt taken index⟩ :: cs, x, []⟩) >>= k')
      (t.run env taken index m >>= k) := by
  cases t with
  | last b => exact (Block.tracks_segment hcs b.tracks_run m x).bind (hk _)
  | more b rest =>
    unfold Segments.ops Segments.run
    rw [List.foldlM_append, bind_assoc, bind_assoc]
    refine (Block.tracks_segment hcs b.tracks_run m x).bind fun m x => ?_
    rw [List.foldlM_cons, bind_assoc, bind_assoc]
    refine step_separates (fun m x => ?_) m x
    rw [Condition.onElse, flip_branchAt]
    exact rest.tracks_run hcs taken (index + 1) hk m x

end

end

/-! ### Scripts -/

/-- The state but for the open conditions. -/
def Machine.bare (m : Machine) : Machine := { m with conditions := [], execute := false }

/-- The fault of an outcome or its result, and the state but for the open conditions. -/
def bareOutcome : Except Halt Machine → Except Halt Machine
  | .ok m => .ok m.bare
  | .error halt => .error ⟨halt.fault, halt.machine.bare⟩

section
variable {env : Env} {m : Machine}

theorem bare_inside (c : List Condition) (x : Bool) : (m.inside ⟨c, x, []⟩).bare = m.bare := by
  unfold inside bare
  rw [List.append_nil]

theorem Tracks.bareOutcome_eq {cs : List Condition} {flat tree : Except Halt Machine} (h : Tracks cs flat tree) :
    bareOutcome flat = bareOutcome tree := by
  cases h with
  | ok m x => exact congrArg Except.ok (bare_inside cs x)
  | halt f m c x => exact congrArg (fun m => Except.error (Halt.mk f m)) (bare_inside c x)

theorem begin_inside (script : Bytes) : m.begin script = (m.begin script).inside ⟨[], m.execute, []⟩ := by
  unfold begin inside
  rw [List.append_nil]

theorem Segments.tracks_runTop (env : Env) (t : Segments) (m : Machine) (x : Bool) :
    Tracks [] (t.ops.foldlM (step env) (m.inside ⟨[], x, []⟩) >>= finish none) (t.runTop env m) := by
  cases t with
  | last b =>
    rw [← bind_pure (Segments.runTop env (.last b) m)]
    exact (b.tracks_run [] rfl m x).bind fun m x => .ok m x
  | more b rest =>
    unfold Segments.ops Segments.runTop
    rw [List.foldlM_append, bind_assoc]
    refine (b.tracks_run [] rfl m x).bind fun m x => ?_
    rw [List.foldlM_cons, bind_assoc]
    refine step_tracks m _ (fun m => ?_) x
    rw [Mark.act_eq]
    exact .halt _ m [] _

theorem Segments.bareOutcome_runScript (t : Segments) {script : Bytes} (h : Script.decode script = .ok t.ops) :
    bareOutcome (m.runScript env script) = bareOutcome (t.runScript env script m) := by
  obtain ⟨hops, hcut⟩ := Script.listing_of_decode h
  unfold Machine.runScript Segments.runScript
  split
  · rfl
  · have htop := t.tracks_runTop env (m.begin script) m.execute
    rw [← begin_inside, ← hops, ← hcut] at htop
    exact htop.bareOutcome_eq

end

/-- The machine does with the operations of a script what the evaluation of its blocks says: a script whose blocks
    balance has a tree, and the outcome is that of the tree. Operations passed over are only checked and counted, and
    in every state that is reached the open conditions have the shape that blocks inside of blocks give them. -/
theorem runScript_follows_blocks (env : Env) :
    (∀ (script : Bytes) (ops : List Operation) (m : Machine), Script.decode script = .ok ops → Balanced ops →
      (∃ t : Segments, t.ops = ops) ∧
      ∀ t : Segments, t.ops = ops → bareOutcome (m.runScript env script) = bareOutcome (t.runScript env script m)) ∧
    (∀ (o : Operation) (m m' : Machine), m.passOver env o = .ok m' ↔
      (∀ item ∈ o.item?, (item.length : Int) ≤ env.limits.itemSize) ∧
        (o.opcode.isCounted = true → m.opCount + 1 ≤ env.limits.opsPerScript) ∧ o.opcode.isDisabled = false ∧
        (o.opcode ≠ Opcode.opVerIf ∧ o.opcode ≠ Opcode.opVerNotIf) ∧
        m' = { m.advance o with opCount := m.opCount + if o.opcode.isCounted then 1 else 0 }) ∧
    ∀ (script : Bytes) (m m' : Machine), Reaches env script m m' → Shaped m'.conditions := by
  refine ⟨fun script ops m hdecode hbalanced => ⟨Segments.exists_ops_eq hbalanced, ?_⟩, fun o m m' => passOver_eq_ok,
    fun script m m' h => h.shaped⟩
  rintro t rfl
  exact t.bareOutcome_runScript hdecode

/-- `OP_1 OP_IF OP_2 OP_ELSE OP_0 OP_IF OP_3 OP_ELSE OP_4 OP_ENDIF OP_ELSE OP_5 OP_ENDIF` executes the first and the
    third segment of its outer block. -/
theorem runScript_nested_blocks : ∃ t : Segments,
    Script.decode [0x51, 0x63, 0x52, 0x67, 0x00, 0x63, 0x53, 0x67, 0x54, 0x68, 0x67, 0x55, 0x68] = .ok t.ops ∧
    Balanced t.ops ∧
    (bareOutcome (t.runScript ⟨.default, none, .standard⟩
      [0x51, 0x63, 0x52, 0x67, 0x00, 0x63, 0x53, 0x67, 0x54, 0x68, 0x67, 0x55, 0x68] { })).map
        (fun m => (m.stack, m.opCount)) = .ok ([[5], [2]], 7) := by
  have hdecode : ∃ ops, Script.decode [0x51, 0x63, 0x52, 0x67, 0x00, 0x63, 0x53, 0x67, 0x54, 0x68, 0x67, 0x55, 0x68] =
    .ok ops ∧ Balanced ops := ⟨_, rfl, by decide⟩
  obtain ⟨ops, hdecode, hbalanced⟩ := hdecode
  obtain ⟨⟨t, rfl⟩, htree⟩ := (runScript_follows_blocks ⟨.default, none, .standard⟩).1 _ _ { } hdecode hbalanced
  refine ⟨t, hdecode, hbalanced, ?_⟩
  rw [← htree t rfl]
  rfl

end SpendScript
