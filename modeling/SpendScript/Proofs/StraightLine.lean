import SpendScript.Proofs.BlockTree
import SpendScript.Proofs.Inheritance

/-! # Straight-line scripts

A script without conditions takes its operations one after another (`runScript_straight`), and each of them succeeds
on the states that its checks describe. -/

namespace SpendScript

namespace Machine

/-- Takes an operation where no condition is open. -/
def act (env : Env) (m : Machine) (o : Operation) : Except Halt Machine := m.vet env o >>= execute1 env o

end Machine

open Machine

section
variable {env : Env} {m m' : Machine}

theorem Block.exists_run_eq (env : Env) {ops : List Operation} (hplain : ∀ o ∈ ops, o.mark? = none) :
    ∃ b : Block, b.ops = ops ∧ ∀ m, b.run env m = ops.foldlM (act env) m := by
  induction ops with
  | nil => exact ⟨.nil, rfl, fun _ => rfl⟩
  | cons o ops ih =>
    obtain ⟨b, hops, hrun⟩ := ih fun o ho => hplain o (List.mem_cons_of_mem _ ho)
    refine ⟨.op o (hplain o List.mem_cons_self) b, congrArg (o :: ·) hops, fun m => ?_⟩
    unfold Block.run act
    rw [List.foldlM_cons, bind_assoc]
    congr 1
    funext m
    congr 1
    funext m
    exact hrun m

theorem report_bareOutcome (x : Except Halt Machine) : report (bareOutcome x) = report x := by
  cases x <;> rfl

theorem bareOutcome_eq_ok {x : Except Halt Machine} : bareOutcome x = .ok m ↔ ∃ m', x = .ok m' ∧ m'.bare = m := by
  cases x with
  | ok m' =>
    constructor
    · intro h
      exact ⟨m', rfl, Except.ok.inj h⟩
    · rintro ⟨_, h, rfl⟩
      cases h
      rfl
  | error halt => exact ⟨fun h => (nomatch h), fun ⟨_, h, _⟩ => (nomatch h)⟩

/-- A script without conditions, if it is not too long, takes one operation after another. -/
theorem bareOutcome_straight {script : Bytes} {ops : List Operation} (hdecode : Script.decode script = .ok ops)
    (hplain : ∀ o ∈ ops, o.mark? = none) (hsize : (script.length : Int) ≤ env.limits.scriptSize) :
    bareOutcome (m.runScript env script) = bareOutcome (ops.foldlM (act env) (m.begin script)) := by
  obtain ⟨b, rfl, hrun⟩ := Block.exists_run_eq env hplain
  rw [Segments.bareOutcome_runScript (.last b) hdecode]
  unfold Segments.runScript
  rw [if_neg (Int.not_lt.mpr hsize)]
  exact congrArg bareOutcome (hrun _)

theorem runScript_straight {script : Bytes} {ops : List Operation} (hdecode : Script.decode script = .ok ops)
    (hplain : ∀ o ∈ ops, o.mark? = none) (hsize : (script.length : Int) ≤ env.limits.scriptSize) :
    report (m.runScript env script) = report (ops.foldlM (act env) (m.begin script)) := by
  rw [← report_bareOutcome, bareOutcome_straight hdecode hplain hsize, report_bareOutcome]

/-! ### Single operations -/

theorem hash_eq_ok {op : Opcode} {f : HashFunction} : m.perform env op (.hash f) = .ok m' ↔
    ∃ item rest, m.stack = item :: rest ∧ m' = { m with stack := f.apply env.hashes item :: rest } := by
  unfold perform
  simp only [bind_eq_ok, requireDepth_eq_ok, peek_eq_ok, replace_eq_ok]
  constructor
  · rintro ⟨_, -, item, hitem, -, rfl⟩
    obtain ⟨rest, hrest⟩ := eq_cons_of_getElem? hitem
    exact ⟨item, rest, hrest, by rw [hrest]; rfl⟩
  · rintro ⟨item, rest, hstack, rfl⟩
    have hdepth : 1 ≤ m.stack.length := hstack ▸ Nat.le_add_left 1 rest.length
    exact ⟨(), Int.ofNat_le.mpr hdepth, item, by rw [hstack]; rfl, hdepth, by rw [hstack]; rfl⟩

theorem equal_eq_ok : m.equal env = .ok m' ↔
    ∃ a b rest, m.stack = a :: b :: rest ∧ (rest.length + m.alt.length : Int) + 1 ≤ env.limits.stackSize ∧
      m' = { m with stack := Number.ofBool (a == b) :: rest } := by
  unfold equal
  simp only [bind_eq_ok, requireDepth_eq_ok, peek_eq_ok, pop_eq_ok, push_eq_ok]
  constructor
  · rintro ⟨_, -, a, ha, b, hb, _, ⟨-, rfl⟩, hroom, rfl⟩
    obtain ⟨below, hbelow⟩ := eq_cons_of_getElem? ha
    rw [hbelow, List.getElem?_cons_succ] at hb
    obtain ⟨rest, rfl⟩ := eq_cons_of_getElem? hb
    rw [hbelow] at hroom ⊢
    exact ⟨a, b, rest, rfl, hroom, rfl⟩
  · rintro ⟨a, b, rest, hstack, hroom, rfl⟩
    have hdepth : 2 ≤ m.stack.length := hstack ▸ Nat.le_add_left 2 rest.length
    rw [hstack] at hdepth ⊢
    exact ⟨(), Int.ofNat_le.mpr hdepth, a, rfl, b, rfl, _, ⟨hdepth, rfl⟩, hroom, rfl⟩

theorem dup_eq_ok {op : Opcode} : m.perform env op (.dup 1) = .ok m' ↔
    ∃ item rest, m.stack = item :: rest ∧ (m.size : Int) + 1 ≤ env.limits.stackSize ∧
      m' = { m with stack := item :: item :: rest } := by
  unfold perform pushAll
  simp only [bind_eq_ok, requireDepth_eq_ok, requireRoom_eq_ok, List.length_take]
  constructor
  · rintro ⟨_, hdepth, _, hroom, hm⟩
    have hpos : 0 < m.stack.length := by omega
    obtain ⟨item, rest, hstack⟩ := List.exists_cons_of_length_pos hpos
    rw [Nat.min_eq_left hpos] at hroom
    refine ⟨item, rest, hstack, hroom, (Except.ok.inj hm).symm.trans ?_⟩
    rw [hstack]
    rfl
  · rintro ⟨item, rest, hstack, hroom, rfl⟩
    have hpos : 1 ≤ m.stack.length := hstack ▸ Nat.le_add_left 1 rest.length
    refine ⟨(), Int.ofNat_le.mpr hpos, (), by rw [Nat.min_eq_left hpos]; exact hroom, ?_⟩
    rw [hstack]
    rfl

theorem popVerify_eq_ok {v : Verification} : m.popVerify v = .ok m' ↔
    ∃ item rest, m.stack = item :: rest ∧ Number.isTrue item = true ∧ m' = { m with stack := rest } := by
  unfold popVerify
  simp only [bind_eq_ok, peek_eq_ok]
  constructor
  · rintro ⟨item, hitem, h⟩
    obtain ⟨rest, hstack⟩ := eq_cons_of_getElem? hitem
    split at h
    · rename_i htrue
      obtain ⟨-, rfl⟩ := pop_eq_ok.mp h
      exact ⟨item, rest, hstack, htrue, by rw [hstack]; rfl⟩
    · cases h
  · rintro ⟨item, rest, hstack, htrue, rfl⟩
    refine ⟨item, by rw [hstack]; rfl, ?_⟩
    rw [if_pos htrue, pop_eq_ok, hstack]
    exact ⟨Nat.le_add_left 1 rest.length, rfl⟩

theorem checkPush_eq_ok {op : Int} {item : Bytes} {u : Unit} : env.limits.checkPush op item = .ok u ↔
    (env.limits.flags.has .requireMinimalPush = true → op = (Push.opcode item).toNat) := by
  refine refuse_eq_ok.trans ⟨fun h hf => ?_, fun h hf => hf.2 (h hf.1)⟩
  exact Decidable.byContradiction fun hn => h ⟨hf, hn⟩

/-- An operation that pushes an item takes room for it, and under the flag it must be the shortest push. -/
theorem act_item_eq_ok {o : Operation} {item : Bytes} (ho : o.item? = some item) : m.act env o = .ok m' ↔
    (item.length : Int) ≤ env.limits.itemSize ∧
      (env.limits.flags.has .requireMinimalPush = true → o.opcode = Push.opcode item) ∧
      (m.size : Int) + 1 ≤ env.limits.stackSize ∧ m' = { m.advance o with stack := item :: m.stack } := by
  have hop : ((o.opcode.toNat : Int) = (Push.opcode item).toNat) ↔ o.opcode = Push.opcode item :=
    Int.ofNat_inj.trans UInt8.toNat_inj
  have hvet : ∀ m₁, m.vet env o = .ok m₁ ↔ (item.length : Int) ≤ env.limits.itemSize ∧ m₁ = m.advance o := by
    intro m₁
    rw [vet_eq_ok, Operation.isCounted_of_item? ho, Operation.isDisabled_of_item? ho, if_neg Bool.false_ne_true,
      Int.add_zero, ho]
    constructor
    · rintro ⟨hitem, -, -, rfl⟩
      exact ⟨hitem _ rfl, rfl⟩
    · rintro ⟨hitem, rfl⟩
      refine ⟨fun item h => ?_, fun h => (nomatch h), rfl, rfl⟩
      cases h
      exact hitem
  unfold act execute1
  simp only [bind_eq_ok, hvet, ho, attempt_eq_ok, checkPush_eq_ok, push_eq_ok]
  constructor
  · rintro ⟨_, ⟨hitem, rfl⟩, _, hmin, hroom, rfl⟩
    exact ⟨hitem, fun hf => hop.mp (hmin hf), hroom, rfl⟩
  · rintro ⟨hitem, hmin, hroom, rfl⟩
    exact ⟨_, ⟨hitem, rfl⟩, (), fun hf => hop.mpr (hmin hf), hroom, rfl⟩

theorem act_push_eq_ok {p : PushData} : m.act env (.push p) = .ok m' ↔
    (p.data.length : Int) ≤ env.limits.itemSize ∧
      (env.limits.flags.has .requireMinimalPush = true → p.opcode = Push.opcode p.data) ∧
      (m.size : Int) + 1 ≤ env.limits.stackSize ∧ m' = { m.advance (.push p) with stack := p.data :: m.stack } :=
  act_item_eq_ok (o := .push p) rfl

/-- An opcode that pushes nothing and is not disabled acts once it is counted. -/
theorem act_code_eq_ok {op : Opcode} (hitem : Operation.constant? op = none) (hcounted : op.isCounted = true)
    (hdisabled : op.isDisabled = false) : m.act env (.code op) = .ok m' ↔
    m.opCount + 1 ≤ env.limits.opsPerScript ∧
      { m.advance (.code op) with opCount := m.opCount + 1 }.perform env op (.ofOpcode op) = .ok m' := by
  have hvet : ∀ m₁, m.vet env (.code op) = .ok m₁ ↔ m.opCount + 1 ≤ env.limits.opsPerScript ∧
      m₁ = { m.advance (.code op) with opCount := m.opCount + 1 } := by
    intro m₁
    rw [vet_eq_ok, Operation.opcode, Operation.item?, hitem, hcounted, hdisabled, if_pos rfl]
    exact ⟨fun ⟨_, hcount, _, hm⟩ => ⟨hcount rfl, hm⟩,
      fun ⟨hcount, hm⟩ => ⟨fun _ h => (nomatch h), fun _ => hcount, rfl, hm⟩⟩
  have hexecute : ∀ m₁ : Machine, m₁.execute1 env (.code op) = m₁.perform env op (.ofOpcode op) := by
    intro m₁
    unfold execute1
    rw [Operation.item?, hitem]
    rfl
  unfold act
  rw [bind_eq_ok]
  constructor
  · rintro ⟨m₁, hm₁, h⟩
    obtain ⟨hcount, rfl⟩ := (hvet m₁).mp hm₁
    exact ⟨hcount, (hexecute _).symm.trans h⟩
  · rintro ⟨hcount, h⟩
    exact ⟨_, (hvet _).mpr ⟨hcount, rfl⟩, (hexecute _).trans h⟩

theorem act_hash160_eq_ok : m.act env (.code 0xa9) = .ok m' ↔
    m.opCount + 1 ≤ env.limits.opsPerScript ∧ ∃ item rest, m.stack = item :: rest ∧
      m' = { m.advance (.code 0xa9) with opCount := m.opCount + 1, stack := (env.hashes.hash160 item).bytes :: rest } := by
  rw [act_code_eq_ok rfl rfl rfl]
  exact and_congr_right fun _ => hash_eq_ok

theorem act_equal_eq_ok : m.act env (.code 0x87) = .ok m' ↔
    m.opCount + 1 ≤ env.limits.opsPerScript ∧ ∃ a b rest, m.stack = a :: b :: rest ∧
      (rest.length + m.alt.length : Int) + 1 ≤ env.limits.stackSize ∧
      m' = { m.advance (.code 0x87) with opCount := m.opCount + 1, stack := Number.ofBool (a == b) :: rest } := by
  rw [act_code_eq_ok rfl rfl rfl]
  exact and_congr_right fun _ => equal_eq_ok

theorem act_dup_eq_ok : m.act env (.code 0x76) = .ok m' ↔
    m.opCount + 1 ≤ env.limits.opsPerScript ∧ ∃ item rest, m.stack = item :: rest ∧
      (m.size : Int) + 1 ≤ env.limits.stackSize ∧
      m' = { m.advance (.code 0x76) with opCount := m.opCount + 1, stack := item :: item :: rest } := by
  rw [act_code_eq_ok rfl rfl rfl]
  exact and_congr_right fun _ => dup_eq_ok

theorem act_equalVerify_eq_ok : m.act env (.code 0x88) = .ok m' ↔
    m.opCount + 1 ≤ env.limits.opsPerScript ∧ ∃ item rest, m.stack = item :: item :: rest ∧
      (rest.length + m.alt.length : Int) + 1 ≤ env.limits.stackSize ∧
      m' = { m.advance (.code 0x88) with opCount := m.opCount + 1, stack := rest } := by
  rw [act_code_eq_ok rfl rfl rfl]
  refine and_congr_right fun _ => (bind_eq_ok (x := equal env _)).trans ?_
  simp only [equal_eq_ok, popVerify_eq_ok]
  constructor
  · rintro ⟨_, ⟨a, b, rest, hstack, hroom, rfl⟩, _, _, htop, htrue, rfl⟩
    cases htop
    rw [Number.isTrue_ofBool] at htrue
    obtain rfl := eq_of_beq htrue
    exact ⟨a, rest, hstack, hroom, rfl⟩
  · rintro ⟨item, rest, hstack, hroom, rfl⟩
    refine ⟨_, ⟨item, item, rest, hstack, hroom, rfl⟩, _, rest, rfl, ?_, rfl⟩
    rw [Number.isTrue_ofBool]
    exact beq_self_eq_true item

end

section
variable {item : Bytes} (hlow : 2 ≤ item.length)
include hlow

theorem Push.single?_of_length : single? item = none := by
  cases item with
  | nil => exact absurd hlow (by decide)
  | cons a rest =>
    cases rest with
    | nil => exact absurd hlow (Nat.not_succ_le_self 1)
    | cons b rest => rfl

theorem Push.opcode_of_length (hhigh : item.length < 76) : Push.opcode item = UInt8.ofNat item.length := by
  unfold opcode PushEncoding.shortest
  rw [single?_of_length hlow, if_pos hhigh]
  rfl

theorem Push.encode_of_length (hhigh : item.length < 76) : Push.encode item = UInt8.ofNat item.length :: item := by
  unfold encode PushEncoding.shortest
  rw [single?_of_length hlow, if_pos hhigh]
  rfl

end

end SpendScript
