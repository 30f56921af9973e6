import SpendScript.Proofs.Control
import SpendScript.Proofs.Marks

/-! # Well-formed scripts

Every operation of a script is checked before it is known whether it is executed. A script that is evaluated without a
fault is therefore well-formed as a whole (`runScript_wellFormed`): it reads to its end, none of its operations is one
that fails wherever it stands, its items are within the limit, its blocks balance, and the count of operations is that
of the script and of the keys of the multiple checks that were executed. -/

namespace SpendScript

open Machine

/-- Whether an opcode checks signatures against several keys. -/
def Opcode.isMultisig (op : Opcode) : Bool := op = opCheckMultiSig ∨ op = opCheckMultiSigVerify

/-- Whether an operation may stand in a script, executed or not. -/
def Operation.Allowed (l : Limits) (o : Operation) : Prop :=
  o.opcode.isDisabled = false ∧ (o.opcode ≠ Opcode.opVerIf ∧ o.opcode ≠ Opcode.opVerNotIf) ∧
    ∀ item ∈ o.item?, (item.length : Int) ≤ l.itemSize

/-! ### Key counts -/

/-- The keys that an operation counts: those of a multiple check that is executed, whose number is on top of the
    stack. -/
def Machine.keyCount (m : Machine) (o : Operation) : Int :=
  if m.isExecuting ∧ o.opcode.isMultisig then Number.decode m.top else 0

/-- The sum of the keys that the operations of a run count. -/
def Machine.keyCounts (env : Env) : List Operation → Machine → Int
  | [], _ => 0
  | o :: ops, m =>
    m.keyCount o + match m.step env o with
      | .ok m' => keyCounts env ops m'
      | .error _ => 0

/-! ### One operation -/

theorem Action.isOnStacks_ofOpcode {op : Opcode} (hmark : (Operation.code op).mark? = none)
    (hseparator : op ≠ Opcode.opCodeSeparator) (hmulti : op.isMultisig = false) :
    (Action.ofOpcode op).isOnStacks = true := by
  have hne : ∀ c : Opcode, op ≠ c → op.toNat ≠ c.toNat := fun c hc he => hc (UInt8.toNat_inj.mp he)
  have hmarks : ∀ k : Mark, op.toNat ≠ k.operation.opcode.toNat := by
    intro k
    refine hne _ fun hk => Operation.ne_of_mark? hmark k ?_
    rw [k.eq_code, hk]
  obtain ⟨hcheck, hverify⟩ := not_or.mp (of_decide_eq_false hmulti)
  unfold Action.ofOpcode
  split
  case h_2 hop => exact absurd hop (hmarks (.opens false))
  case h_3 hop => exact absurd hop (hmarks (.opens true))
  case h_4 hop => exact absurd hop (hmarks .separates)
  case h_5 hop => exact absurd hop (hmarks .closes)
  case h_55 hop => exact absurd hop (hne _ hseparator)
  case h_58 hop => exact absurd hop (hne _ hcheck)
  case h_59 hop => exact absurd hop (hne _ hverify)
  rotate_right
  · split <;> rfl
  all_goals rfl

section
variable {env : Env} {m m' : Machine} {o : Operation}

theorem Opcode.isCounted_of_isMultisig {op : Opcode} (h : op.isMultisig = true) : op.isCounted = true := by
  rcases of_decide_eq_true h with rfl | rfl <;> rfl

theorem popVerify_eq_control {v : Verification} (h : m.popVerify v = .ok m') : m'.control = m.control := by
  have hkeeps : Keeps m.control (m.popVerify v) := popVerify_control rfl v
  rw [h] at hkeeps
  exact hkeeps

theorem perform_multisig {op : Opcode} (hop : op.isMultisig = true) (h : m.perform env op (.ofOpcode op) = .ok m') :
    m'.control = { m with opCount := m.opCount + Number.decode m.top }.control ∧
      m.opCount + Number.decode m.top ≤ env.limits.opsPerScript := by
  rcases of_decide_eq_true hop with rfl | rfl
  · exact checkMultiSig_control h
  · obtain ⟨m₁, hcheck, hverify⟩ := bind_eq_ok.mp h
    rw [popVerify_eq_control hverify]
    exact checkMultiSig_control hcheck

/-- What an executed operation that is no mark leaves: the conditions, and the count but for keys. -/
theorem execute1_counts (ho : o.mark? = none) (h : execute1 env o m = .ok m') :
    m'.conditions = m.conditions ∧
      m'.opCount = m.opCount + (if o.opcode.isMultisig then Number.decode m.top else 0) ∧
      (o.opcode.isMultisig = true → m'.opCount ≤ env.limits.opsPerScript) := by
  unfold execute1 at h
  cases hi : o.item? with
  | some item =>
    rw [hi] at h
    simp only [bind_eq_ok, push_eq_ok] at h
    obtain ⟨_, -, -, rfl⟩ := h
    have hno : o.opcode.isMultisig = false := by
      refine eq_false_of_ne_true fun hmulti => ?_
      have hle := Operation.toNat_opcode_le hi
      rcases of_decide_eq_true hmulti with h | h <;> rw [h] at hle <;> exact absurd hle (by decide)
    rw [hno]
    exact ⟨rfl, (Int.add_zero _).symm, fun h => (nomatch h)⟩
  | none =>
    rw [hi] at h
    cases o with
    | push p => cases hi
    | code op =>
      change m.perform env op (.ofOpcode op) = .ok m' at h
      show _ ∧ m'.opCount = m.opCount + (if op.isMultisig then _ else 0) ∧ (op.isMultisig = true → _)
      cases hmulti : op.isMultisig with
      | true =>
        obtain ⟨hcontrol, hlimit⟩ := perform_multisig hmulti h
        have hcount : m'.opCount = m.opCount + Number.decode m.top := opCount_of_control hcontrol
        have hconditions := conditions_of_control (m := { m with opCount := _ }) hcontrol
        exact ⟨hconditions, hcount, fun _ => hcount ▸ hlimit⟩
      | false =>
        have hsame : m'.conditions = m.conditions ∧ m'.opCount = m.opCount := by
          by_cases hseparator : op = Opcode.opCodeSeparator
          · subst hseparator
            cases h
            exact ⟨rfl, rfl⟩
          · have hkeeps : Keeps m.control (m.perform env op (.ofOpcode op)) :=
              perform_control rfl op (Action.isOnStacks_ofOpcode ho hseparator hmulti)
            rw [h] at hkeeps
            exact ⟨conditions_of_control hkeeps, opCount_of_control hkeeps⟩
        exact ⟨hsame.1, hsame.2.trans (Int.add_zero _).symm, fun h => (nomatch h)⟩

theorem execute1_not_ver (h : execute1 env o m = .ok m') :
    o.opcode ≠ Opcode.opVerIf ∧ o.opcode ≠ Opcode.opVerNotIf := by
  cases o with
  | push p =>
    have hlt := p.toNat_opcode_lt
    constructor
    · intro hop
      change p.opcode = _ at hop
      rw [hop] at hlt
      exact absurd hlt (by decide)
    · intro hop
      change p.opcode = _ at hop
      rw [hop] at hlt
      exact absurd hlt (by decide)
  | code op =>
    constructor
    · rintro (rfl : op = _)
      cases h
    · rintro (rfl : op = _)
      cases h

theorem step_eq_ok : m.step env o = .ok m' ↔
    (∀ item ∈ o.item?, (item.length : Int) ≤ env.limits.itemSize) ∧
      (o.opcode.isCounted = true → m.opCount + 1 ≤ env.limits.opsPerScript) ∧ o.opcode.isDisabled = false ∧
      (if m.isExecuting then execute1 env o (m.begun o (m.opCount + if o.opcode.isCounted then 1 else 0))
        else skip1 env o (m.begun o (m.opCount + if o.opcode.isCounted then 1 else 0))) = .ok m' := by
  unfold step
  simp only [bind_eq_ok, checkItem_eq_ok, count_eq_ok]
  constructor
  · rintro ⟨_, hitem, _, ⟨hcount, rfl⟩, h⟩
    cases hd : o.opcode.isDisabled with
    | true =>
      rw [hd] at h
      cases h
    | false =>
      rw [hd] at h
      exact ⟨hitem, hcount, rfl, h⟩
  · rintro ⟨hitem, hcount, hd, h⟩
    refine ⟨(), hitem, _, ⟨hcount, rfl⟩, ?_⟩
    rw [hd]
    exact h

/-- What a step does to the conditions and to the count. -/
structure Advances (env : Env) (o : Operation) (m m' : Machine) : Prop where
  depth : openAfter [o] m.conditions.length = some m'.conditions.length
  enclosed : o.mark? = some .separates → 0 < m.conditions.length
  count : m'.opCount = m.opCount + (if o.opcode.isCounted then 1 else 0) + m.keyCount o
  limit : o.opcode.isCounted = true → m'.opCount ≤ env.limits.opsPerScript

theorem openIf_eq_ok {negated : Bool} (h : openIf negated m = .ok m') :
    ∃ c, m'.conditions = c :: m.conditions ∧ m'.opCount = m.opCount := by
  unfold openIf at h
  split at h
  · simp only [bind_eq_ok, pop_eq_ok] at h
    obtain ⟨_, -, _, -, _, ⟨-, rfl⟩, h⟩ := h
    cases h
    exact ⟨_, rfl, rfl⟩
  · cases h
    exact ⟨_, rfl, rfl⟩

theorem Mark.act_eq_ok {k : Mark} (h : k.act m = .ok m') :
    openAfter [k.operation] m.conditions.length = some m'.conditions.length ∧
      (k = .separates → 0 < m.conditions.length) ∧ m'.opCount = m.opCount := by
  cases k with
  | opens negated =>
    obtain ⟨c, hconditions, hcount⟩ := openIf_eq_ok h
    refine ⟨?_, fun h => (nomatch h), hcount⟩
    rw [hconditions]
    cases negated <;> rfl
  | separates =>
    change m.otherwise = .ok m' at h
    unfold Machine.otherwise at h
    split at h
    · cases h
    · rename_i c cs hc
      cases h
      rw [hc]
      exact ⟨rfl, fun _ => Nat.succ_pos _, rfl⟩
  | closes =>
    change m.closeIf = .ok m' at h
    unfold closeIf at h
    split at h
    · cases h
    · rename_i c cs hc
      cases h
      rw [hc]
      exact ⟨rfl, fun h => (nomatch h), rfl⟩

theorem Mark.allowed (k : Mark) : k.operation.opcode.isMultisig = false ∧
    k.operation.opcode ≠ Opcode.opVerIf ∧ k.operation.opcode ≠ Opcode.opVerNotIf := by
  cases k with
  | opens negated => cases negated <;> decide
  | separates | closes => decide

theorem openAfter_plain (ho : o.mark? = none) (depth : Nat) : openAfter [o] depth = some depth := by
  unfold openAfter
  rw [ho]
  rfl

/-- A step that counts no keys stays within the limit if it was within it once counted. -/
theorem limit_of_no_keys (hkeys : m.keyCount o = 0)
    (hcount : o.opcode.isCounted = true → m.opCount + 1 ≤ env.limits.opsPerScript)
    (hm : m'.opCount = m.opCount + (if o.opcode.isCounted then 1 else 0) + m.keyCount o)
    (ho : o.opcode.isCounted = true) : m'.opCount ≤ env.limits.opsPerScript := by
  rw [hm, hkeys, if_pos ho, Int.add_zero]
  exact hcount ho

theorem keyCount_of_not_multisig (h : o.opcode.isMultisig = false) : m.keyCount o = 0 :=
  if_neg fun hm => Bool.false_ne_true (h.symm.trans hm.2)

theorem keyCount_of_not_executing (h : m.isExecuting = false) : m.keyCount o = 0 :=
  if_neg fun hm => Bool.false_ne_true (h.symm.trans hm.1)

/-- An operation that is taken may stand in a script, and moves the conditions and the count as it should. -/
theorem step_advances (h : m.step env o = .ok m') : o.Allowed env.limits ∧ Advances env o m m' := by
  obtain ⟨hitem, hcount, henabled, hact⟩ := step_eq_ok.mp h
  cases ho : o.mark? with
  | some k =>
    obtain rfl := Operation.eq_of_mark? ho
    obtain ⟨hmulti, hver⟩ := k.allowed
    rw [k.act_eq] at hact
    obtain ⟨hdepth, henclosed, hcounted⟩ := k.act_eq_ok hact
    have hkeys : m.keyCount k.operation = 0 := keyCount_of_not_multisig hmulti
    have hnew : m'.opCount = m.opCount + (if k.operation.opcode.isCounted then 1 else 0) + m.keyCount k.operation := by
      rw [hkeys, Int.add_zero]
      exact hcounted
    refine ⟨⟨henabled, hver, hitem⟩, hdepth, fun hk => henclosed ?_, hnew, limit_of_no_keys hkeys hcount hnew⟩
    exact Option.some.inj (ho.symm.trans hk)
  | none =>
    have henclosed : o.mark? = some .separates → 0 < m.conditions.length := by
      rw [ho]
      exact fun hk => (nomatch hk)
    cases hx : m.isExecuting with
    | true =>
      rw [hx] at hact
      obtain ⟨hconditions, hnew, hlimit⟩ := execute1_counts ho hact
      have hdepth : openAfter [o] m.conditions.length = some m'.conditions.length := by
        rw [hconditions]
        exact openAfter_plain ho _
      have hkeys : m.keyCount o = if o.opcode.isMultisig then Number.decode m.top else 0 := by
        unfold keyCount
        rw [hx]
        simp only [true_and]
      rw [show (m.begun o _).top = m.top from rfl, ← hkeys] at hnew
      refine ⟨⟨henabled, execute1_not_ver hact, hitem⟩, hdepth, henclosed, hnew, ?_⟩
      cases hmulti : o.opcode.isMultisig with
      | true => exact fun _ => hlimit hmulti
      | false => exact limit_of_no_keys (keyCount_of_not_multisig hmulti) hcount hnew
    | false =>
      rw [hx, if_neg Bool.false_ne_true, skip1_eq _ ho] at hact
      split at hact
      · cases hact
      · rename_i hver
        cases hact
        have hkeys : m.keyCount o = 0 := keyCount_of_not_executing hx
        have hnew : m.opCount + (if o.opcode.isCounted then 1 else 0) =
            m.opCount + (if o.opcode.isCounted then 1 else 0) + m.keyCount o := by
          rw [hkeys, Int.add_zero]
        refine ⟨⟨henabled, not_or.mp hver, hitem⟩, openAfter_plain ho _, henclosed, hnew, ?_⟩
        exact limit_of_no_keys hkeys hcount hnew

/-! ### Scripts -/

theorem openAfter_cons (o : Operation) (ops : List Operation) (depth : Nat) :
    openAfter (o :: ops) depth = (openAfter [o] depth).bind (openAfter ops) := by
  conv => lhs; unfold openAfter
  conv => rhs; arg 1; unfold openAfter
  split <;> rfl

/-- What the operations of a run are, and what they do together to the conditions and to the count. -/
structure RunAdvances (env : Env) (ops : List Operation) (m m' : Machine) : Prop where
  allowed : ∀ o ∈ ops, o.Allowed env.limits
  depth : openAfter ops m.conditions.length = some m'.conditions.length
  enclosed : ∀ front back, ops = front ++ Mark.separates.operation :: back →
    ∃ depth, openAfter front m.conditions.length = some (depth + 1)
  count : m'.opCount = m.opCount + ops.countP (·.opcode.isCounted) + keyCounts env ops m
  limit : m'.opCount ≤ env.limits.opsPerScript ∨ m'.opCount = m.opCount ∧ ∀ o ∈ ops, o.opcode.isCounted = false

theorem run_advances {ops : List Operation} (h : ops.foldlM (step env) m = .ok m') : RunAdvances env ops m m' := by
  induction ops generalizing m with
  | nil =>
    cases h
    refine ⟨fun o ho => (nomatch ho), rfl, fun front back hs => ?_, ?_, .inr ⟨rfl, fun o ho => (nomatch ho)⟩⟩
    · cases front <;> cases hs
    · show m'.opCount = m'.opCount + 0 + 0
      rw [Int.add_zero, Int.add_zero]
  | cons o ops ih =>
    rw [List.foldlM_cons] at h
    obtain ⟨m₁, hstep, hrest⟩ := bind_eq_ok.mp h
    obtain ⟨hallowed, hone⟩ := step_advances hstep
    have hrun := ih hrest
    refine ⟨List.forall_mem_cons.mpr ⟨hallowed, hrun.allowed⟩, ?_, ?_, ?_, ?_⟩
    · rw [openAfter_cons, hone.depth]
      exact hrun.depth
    · intro front back hs
      cases front with
      | nil =>
        obtain ⟨rfl, -⟩ := List.cons.inj hs
        exact ⟨m.conditions.length - 1, congrArg some (Nat.succ_pred_eq_of_pos (hone.enclosed rfl)).symm⟩
      | cons o' front =>
        obtain ⟨rfl, htail⟩ := List.cons.inj hs
        rw [openAfter_cons, hone.depth]
        exact hrun.enclosed front back htail
    · have hkeys : keyCounts env (o :: ops) m = m.keyCount o + keyCounts env ops m₁ := by
        show m.keyCount o + (match m.step env o with | .ok m' => _ | .error _ => 0) = _
        rw [hstep]
      rw [hrun.count, hone.count, hkeys, List.countP_cons]
      split <;> omega
    · rcases hrun.limit with hle | ⟨hsame, hnone⟩
      · exact .inl hle
      · cases hc : o.opcode.isCounted with
        | true => exact .inl (hsame ▸ hone.limit hc)
        | false =>
          have hmulti : o.opcode.isMultisig = false :=
            eq_false_of_ne_true fun hm => Bool.false_ne_true (hc.symm.trans (Opcode.isCounted_of_isMultisig hm))
          refine .inr ⟨hsame.trans ?_, List.forall_mem_cons.mpr ⟨hc, hnone⟩⟩
          rw [hone.count, hc, keyCount_of_not_multisig hmulti]
          simp

end

/-- A script that is evaluated without a fault is well-formed as a whole. Its operations all stand where they may, and
    they are counted within the limit if one of them counts. -/
theorem runScript_wellFormed (env : Env) (script : Bytes) (m m' : Machine) (h : m.runScript env script = .ok m') :
    (script.length : Int) ≤ env.limits.scriptSize ∧ ∃ ops, Script.decode script = .ok ops ∧
      (∀ o ∈ ops, o.opcode.isDisabled = false ∧ o.opcode ≠ Opcode.opVerIf ∧ o.opcode ≠ Opcode.opVerNotIf ∧
        ∀ item ∈ o.item?, (item.length : Int) ≤ env.limits.itemSize) ∧
      Balanced ops ∧
      (∀ front back, ops = front ++ Mark.separates.operation :: back → ∃ depth, openAfter front 0 = some (depth + 1)) ∧
      m'.opCount = ops.countP (·.opcode.isCounted) + keyCounts env ops (m.begin script) ∧
      (m'.opCount ≤ env.limits.opsPerScript ∨ m'.opCount = 0 ∧ ∀ o ∈ ops, o.opcode.isCounted = false) := by
  obtain ⟨hsize, ops, hdecode, hrun, hclosed⟩ := runScript_eq_ok.mp h
  have hall := run_advances hrun
  refine ⟨hsize, ops, hdecode, ?_, ?_, hall.enclosed, ?_, hall.limit⟩
  · intro o ho
    obtain ⟨henabled, ⟨hif, hnotIf⟩, hitem⟩ := hall.allowed o ho
    exact ⟨henabled, hif, hnotIf, hitem⟩
  · have hdepth := hall.depth
    rw [hclosed] at hdepth
    exact hdepth
  · rw [hall.count]
    show (0 : Int) + _ + _ = _
    rw [Int.zero_add]

/-- `OP_IF OP_CHECKMULTISIG OP_ELSE OP_NOP OP_ENDIF` with one key and no signature: five operations count, and so does
    the key. -/
theorem runScript_counts_key : ∃ m' ops,
    runScript ⟨.default, none, .standard⟩ [0x00, 0x00, 0x51, 0x51, 0x51, 0x63, 0xae, 0x67, 0x61, 0x68] { } = .ok m' ∧
    Script.decode [0x00, 0x00, 0x51, 0x51, 0x51, 0x63, 0xae, 0x67, 0x61, 0x68] = .ok ops ∧
    ops.countP (·.opcode.isCounted) = 5 ∧ Balanced ops ∧ m'.opCount = 6 := by
  have hrun : ∃ m', runScript ⟨.default, none, .standard⟩ [0x00, 0x00, 0x51, 0x51, 0x51, 0x63, 0xae, 0x67, 0x61, 0x68] { } =
    .ok m' := ⟨_, rfl⟩
  obtain ⟨m', hrun⟩ := hrun
  obtain ⟨-, ops, hdecode, -, hbalanced, -, hcount, -⟩ := runScript_wellFormed _ _ _ _ hrun
  cases hdecode
  refine ⟨m', _, hrun, rfl, rfl, hbalanced, hcount.trans ?_⟩
  rfl

/-- The limit is compared with the count only where the count is raised, so that a script without operations that
    count is evaluated also under a negative limit. -/
theorem not_opCount_le_opsPerScript : ¬∀ (env : Env) (script : Bytes) (m m' : Machine),
    m.runScript env script = .ok m' → m'.opCount ≤ env.limits.opsPerScript := by
  intro h
  exact absurd (h ⟨{ Limits.default with opsPerScript := -1 }, none, .standard⟩ [] { } _ rfl) (by decide)

end SpendScript
