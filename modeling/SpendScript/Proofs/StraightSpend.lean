import SpendScript.Proofs.RedeemRule
import SpendScript.Proofs.ShortestPush

/-! # Spending straight scripts

A locking script without conditions, and without the hash of another script, is spent by pushes if its operations
succeed on the pushed items (`evaluate_operations`). What they do is followed one by one, as far as it concerns the
stack, the count and the script that signatures commit to (`At`). -/

namespace SpendScript

open Machine

/-! ### Pushes before a straight-line script -/

theorem Script.isP2SH_ofOps {o : Operation} (h : o.opcode ≠ Opcode.opHash160) (ops : List Operation) :
    isP2SH (ofOps (o :: ops)) = false := by
  have hfirst : (ofOps (o :: ops))[0]? = some o.opcode := by
    show (o.toBytes ++ ofOps ops)[0]? = _
    rw [o.toBytes_eq]
    rfl
  refine eq_false_of_ne_true fun hp => ?_
  unfold isP2SH at hp
  simp only [Bool.and_eq_true, beq_iff_eq] at hp
  exact h (Option.some.inj (hfirst.symm.trans hp.1.1.2))

theorem Script.isP2SH_operation {item : Bytes} (h : item.length < 2 ^ 32) (ops : List Operation) :
    isP2SH (ofOps (Push.operation item :: ops)) = false := by
  refine isP2SH_ofOps (fun hop => ?_) ops
  have hle := Operation.toNat_opcode_le (Push.item?_operation h)
  rw [hop] at hle
  exact absurd hle (by decide)

/-- Operations that are taken one after another, as a locking script that holds no hash of another. -/
structure IsStraight (ops : List Operation) : Prop where
  distinct : ∀ o ∈ ops, o.isDistinct = true
  plain : ∀ o ∈ ops, o.mark? = none
  size : (Script.ofOps ops).length ≤ 10000
  noHash : Script.isP2SH (Script.ofOps ops) = false

/-- The operations of standard outputs: none of them marks a block, and the longest are pushes of keys. -/
structure Operation.IsSmall (o : Operation) : Prop where
  distinct : o.isDistinct = true
  plain : o.mark? = none
  size : o.size ≤ 70

theorem Push.isSmall_operation {item : Bytes} (h : item.length ≤ 65) : (operation item).IsSmall := by
  have hlen : item.length < 2 ^ 32 := Nat.lt_of_le_of_lt h (by decide)
  exact ⟨isDistinct_operation hlen, Operation.mark?_of_item? (item?_operation hlen),
    Nat.le_trans (size_operation_le hlen) (Nat.add_le_add_right h 5)⟩

theorem isStraight_of_isSmall {ops : List Operation} (h : ∀ o ∈ ops, o.IsSmall) (hcount : ops.length ≤ 100)
    (hhash : Script.isP2SH (Script.ofOps ops) = false) : IsStraight ops := by
  have hbytes := Script.length_ofOps_le fun o ho => (h o ho).size
  exact ⟨fun o ho => (h o ho).distinct, fun o ho => (h o ho).plain, by omega, hhash⟩

section
variable {flags : Flags} {check : Option SigCheck} {hashes : Hashes} {items : List Bytes} {ops : List Operation}

/-- Pushes of a few items spend a straight script if its operations succeed on the items. -/
theorem evaluate_operations (hitems : ∀ item ∈ items, item.length ≤ 520) (hcount : items.length ≤ 17)
    (hops : IsStraight ops) {final : List Bytes} :
    (∃ calls, evaluate ⟨{ flags }, check, hashes⟩ (Script.ofOps (items.map Push.operation)) (Script.ofOps ops) =
        .ok ⟨none, final, calls⟩) ↔
      (∃ m, ops.foldlM (act ⟨{ flags }, check, hashes⟩) (Machine.begin { stack := items.reverse } (Script.ofOps ops)) = .ok m ∧
        m.stack = final.reverse ∧ Number.isTrue (final.reverse.headD []) = true) ∧
      (flags.has .requireCleanStack = true → final.length = 1) := by
  have hlen : ∀ item ∈ items, item.length < 2 ^ 32 := fun item hi => Nat.lt_of_le_of_lt (hitems item hi) (by decide)
  have hunlockSize : ((Script.ofOps (items.map Push.operation)).length : Int) ≤ 10000 := by
    have hsize : ∀ o ∈ items.map Push.operation, o.size ≤ 525 := List.forall_mem_map.mpr fun item hi =>
      Nat.le_trans (Push.size_operation_le (hlen item hi)) (Nat.add_le_add_right (hitems item hi) 5)
    have hbytes := Script.length_ofOps_le hsize
    rw [List.length_map] at hbytes
    omega
  have hunlock : report (runScript ⟨{ flags }, check, hashes⟩ (Script.ofOps (items.map Push.operation)) { }) =
      (none, items.reverse) := by
    have hroom : ((0 : Nat) + items.length : Int) ≤ 1000 := by omega
    refine Eq.trans (runScript_operations hlen (fun item hi => Int.ofNat_le.mpr (hitems item hi)) hroom hunlockSize) ?_
    exact congrArg (Prod.mk none) (List.append_nil _)
  have hstraight : ∀ m : Machine, m.stack = items.reverse →
      report (m.runScript ⟨{ flags }, check, hashes⟩ (Script.ofOps ops)) =
        report (ops.foldlM (act ⟨{ flags }, check, hashes⟩) (Machine.begin { stack := items.reverse } (Script.ofOps ops))) := by
    intro m hm
    have hsame : m.stack = ({ stack := items.reverse } : Machine).stack := hm
    rw [runScript_report hsame]
    exact runScript_straight (Script.decode_ofOps hops.distinct) hops.plain (Int.ofNat_le.mpr hops.size)
  have hredeem : ∀ (unlock : Bytes) (left : List Bytes) (m : Machine),
      m.redeem ⟨{ flags }, check, hashes⟩ unlock (Script.ofOps ops) left = .ok m := fun _ _ _ =>
    if_neg fun h => Bool.false_ne_true (hops.noHash.symm.trans h.2)
  rw [report_evaluate, report_eq_none]
  simp only [spend_eq_ok, hredeem]
  constructor
  · rintro ⟨m, ⟨-, unlocked, locked, hu, hl, htrue, hm, hclean⟩, hstack⟩
    cases hm
    have hleft : unlocked.stack = items.reverse := by
      rw [hu] at hunlock
      exact (Prod.mk.inj hunlock).2
    have hrun := hstraight unlocked hleft
    rw [hl] at hrun
    obtain ⟨m', hm', hsame⟩ := report_eq_none.mp hrun.symm
    refine ⟨⟨m', hm', hsame.trans hstack, hstack ▸ htrue⟩, fun hf => ?_⟩
    rw [← List.length_reverse, ← hstack]
    exact hclean hf
  · rintro ⟨⟨m', hm', hstack, htrue⟩, hclean⟩
    obtain ⟨unlocked, hu, hleft⟩ := report_eq_none.mp hunlock
    have hrun := hstraight unlocked hleft
    rw [hm'] at hrun
    obtain ⟨locked, hl, hsame⟩ := report_eq_none.mp hrun
    rw [hstack] at hsame
    refine ⟨locked, ⟨fun _ => Script.isPushOnly_ofOps (items_operations hlen), unlocked, locked, hu, hl, ?_, rfl, ?_⟩,
      hsame⟩
    · unfold top
      rw [hsame]
      exact htrue
    · intro hf
      rw [hsame, List.length_reverse]
      exact hclean hf

/-- If nothing but a true item is ever left, the flags for the end of a spend do not matter. -/
theorem evaluate_operations_iff (hitems : ∀ item ∈ items, item.length ≤ 520) (hcount : items.length ≤ 17)
    (hops : IsStraight ops) {p : Prop}
    (hrun : ∀ s, (∃ m, ops.foldlM (act ⟨{ flags }, check, hashes⟩)
        (Machine.begin { stack := items.reverse } (Script.ofOps ops)) =
      .ok m ∧ m.stack = s ∧ Number.isTrue (s.headD []) = true) ↔ s = [[1]] ∧ p) (final : List Bytes) :
    (∃ calls, evaluate ⟨{ flags }, check, hashes⟩ (Script.ofOps (items.map Push.operation)) (Script.ofOps ops) =
      .ok ⟨none, final, calls⟩) ↔ final = [[1]] ∧ p := by
  rw [evaluate_operations hitems hcount hops, hrun, List.reverse_eq_iff]
  constructor
  · rintro ⟨h, -⟩
    exact h
  · rintro ⟨rfl, hp⟩
    exact ⟨⟨rfl, hp⟩, fun _ => rfl⟩

end

/-! ### Straight scripts step by step -/

theorem foldlM_act_cons {env : Env} {m m' : Machine} {o : Operation} (h : m.act env o = .ok m') (ops : List Operation) :
    (o :: ops).foldlM (act env) m = ops.foldlM (act env) m' := by
  rw [List.foldlM_cons, h]
  rfl

theorem foldlM_act_append {env : Env} {m m' : Machine} {ops : List Operation} (h : ops.foldlM (act env) m = .ok m')
    (rest : List Operation) : (ops ++ rest).foldlM (act env) m = rest.foldlM (act env) m' := by
  rw [List.foldlM_append, h]
  rfl

theorem foldlM_act_singleton (env : Env) (m : Machine) (o : Operation) : [o].foldlM (act env) m = m.act env o := by
  rw [List.foldlM_cons]
  exact bind_pure _

/-- What the operations of a standard output go by: the script that signatures commit to, the count and the stack. -/
structure At (code : Bytes) (count : Int) (s : List Bytes) (m : Machine) : Prop where
  stack : m.stack = s
  alt : m.alt = []
  count : m.opCount = count
  code : m.code = code

theorem at_begin (script : Bytes) (s : List Bytes) : At script 0 s (Machine.begin { stack := s } script) :=
  ⟨rfl, rfl, rfl, rfl⟩

theorem code_advance (m : Machine) (o : Operation) : (m.advance o).code = m.code := by
  obtain ⟨stack, alt, conditions, execute, opCount, cursor, calls⟩ := m
  cases cursor <;> rfl

namespace At
variable (flags : Flags) (check : Option SigCheck) {hashes : Hashes} {code : Bytes} {count : Int} {s items : List Bytes}
  {item : Bytes} {m : Machine}

theorem size (h : At code count s m) : m.size = s.length := by
  unfold Machine.size
  rw [h.stack, h.alt]
  rfl

theorem pushes (h : At code count s m) (hitems : ∀ item ∈ items, item.length ≤ 520)
    (hroom : s.length + items.length ≤ 1000) :
    ∃ m', (items.map Push.operation).foldlM (act ⟨{ flags }, check, hashes⟩) m = .ok m' ∧
      At code count (items.reverse ++ s) m' := by
  have hlen : ∀ item ∈ items, item.length < 2 ^ 32 := fun item hi => Nat.lt_of_le_of_lt (hitems item hi) (by decide)
  have hsize := h.size
  refine ⟨_, foldlM_act_operations hlen (fun item hi => Int.ofNat_le.mpr (hitems item hi)) ?_, ?_, h.alt, h.count, ?_⟩
  · show (m.size : Int) + items.length ≤ 1000
    omega
  · show items.reverse ++ m.stack = _
    rw [h.stack]
  · rw [code_pushed]
    exact h.code

theorem push (h : At code count s m) (hitem : item.length ≤ 520) (hroom : s.length + 1 ≤ 1000) :
    ∃ m', m.act ⟨{ flags }, check, hashes⟩ (Push.operation item) = .ok m' ∧ At code count (item :: s) m' := by
  have hitems : ∀ i ∈ [item], i.length ≤ 520 := List.forall_mem_singleton.mpr hitem
  obtain ⟨m', hrun, hat⟩ := h.pushes flags check hitems hroom
  rw [List.map_singleton, List.foldlM_cons] at hrun
  obtain ⟨m₁, hact, hdone⟩ := bind_eq_ok.mp hrun
  cases hdone
  exact ⟨m', hact, hat⟩

theorem bump (h : At code count s m) (hcount : count + 1 ≤ 201) : m.opCount + 1 ≤ 201 := by
  rw [h.count]
  exact hcount

theorem counted (h : At code count s m) (op : Opcode) (s' : List Bytes) :
    At code (count + 1) s' { m.advance (.code op) with opCount := m.opCount + 1, stack := s' } :=
  ⟨rfl, h.alt, congrArg (· + 1) h.count, (code_advance m _).trans h.code⟩

theorem dup (h : At code count (item :: s) m) (hcount : count + 1 ≤ 201) (hroom : s.length + 2 ≤ 1000) :
    ∃ m', m.act ⟨{ flags }, check, hashes⟩ (.code Opcode.opDup) = .ok m' ∧ At code (count + 1) (item :: item :: s) m' := by
  have hsize := h.size
  rw [List.length_cons] at hsize
  refine ⟨_, act_dup_eq_ok.mpr ⟨h.bump hcount, item, s, h.stack, ?_, rfl⟩, h.counted _ _⟩
  show (m.size : Int) + 1 ≤ 1000
  omega

theorem hash160 (h : At code count (item :: s) m) (hcount : count + 1 ≤ 201) :
    ∃ m', m.act ⟨{ flags }, check, hashes⟩ (.code Opcode.opHash160) = .ok m' ∧
      At code (count + 1) ((hashes.hash160 item).bytes :: s) m' :=
  ⟨_, act_hash160_eq_ok.mpr ⟨h.bump hcount, item, s, h.stack, rfl⟩, h.counted _ _⟩

theorem equalVerify (h : At code count (item :: item :: s) m) (hcount : count + 1 ≤ 201) (hroom : s.length + 1 ≤ 1000) :
    ∃ m', m.act ⟨{ flags }, check, hashes⟩ (.code Opcode.opEqualVerify) = .ok m' ∧ At code (count + 1) s m' := by
  refine ⟨_, act_equalVerify_eq_ok.mpr ⟨h.bump hcount, item, s, h.stack, ?_, rfl⟩, h.counted _ _⟩
  rw [h.alt]
  exact Int.ofNat_le.mpr hroom

variable {flags check} in
theorem eq_of_equalVerify {a b : Bytes} {m' : Machine} (h : At code count (a :: b :: s) m)
    (hact : m.act ⟨{ flags }, check, hashes⟩ (.code Opcode.opEqualVerify) = .ok m') : a = b := by
  obtain ⟨-, item, rest, hstack, -, -⟩ := act_equalVerify_eq_ok.mp hact
  cases h.stack.symm.trans hstack
  rfl

end At

end SpendScript
