import SpendScript.Proofs.Blocks
import SpendScript.Proofs.Codec
import SpendScript.Proofs.Frame

/-! # Marks and other operations

The operations from `OP_IF` to `OP_ENDIF` are the marks, which act on conditions alone and also where they are not
executed, and `OP_VERIF` and `OP_VERNOTIF`, which fail even there. All others leave the conditions alone, and do
nothing where they are not executed. -/

namespace SpendScript

open Machine Context

/-! ### Opcodes -/

theorem Opcode.isConditional_iff {op : Opcode} : op.isConditional = true ↔
    op = opIf ∨ op = opNotIf ∨ op = opVerIf ∨ op = opVerNotIf ∨ op = opElse ∨ op = opEndIf := by
  unfold isConditional opIf opNotIf opVerIf opVerNotIf opElse opEndIf
  simp only [Bool.and_eq_true, decide_eq_true_eq, UInt8.le_iff_toNat_le, ← UInt8.toNat_inj, UInt8.reduceToNat]
  omega

theorem PushData.toNat_opcode_lt (p : PushData) : p.opcode.toNat < 0x4f := by
  obtain ⟨data, encoding, accepted⟩ := p
  cases encoding with
  | direct =>
    have hle : data.length ≤ 75 := accepted.2
    show (UInt8.ofNat data.length).toNat < 0x4f
    rw [UInt8.toNat_ofNat']
    omega
  | one | two | four => exact of_decide_eq_true rfl

theorem PushData.isConditional_opcode (p : PushData) : p.opcode.isConditional = false := by
  have hlt := p.toNat_opcode_lt
  cases hc : p.opcode.isConditional with
  | false => rfl
  | true =>
    rcases Opcode.isConditional_iff.mp hc with h | h | h | h | h | h <;>
      · rw [h] at hlt
        exact absurd hlt (by decide)

theorem Operation.toNat_opcode_le {o : Operation} {item : Bytes} (h : o.item? = some item) : o.opcode.toNat ≤ 0x60 := by
  cases o with
  | push p => exact Nat.le_of_lt (Nat.lt_trans p.toNat_opcode_lt (by decide))
  | code op =>
    change Operation.constant? op = some item at h
    show op.toNat ≤ 0x60
    unfold Operation.constant? at h
    split at h
    · rename_i hop
      rw [hop]
      decide
    · split at h
      · rename_i hop
        rw [hop]
        decide
      · split at h
        · rename_i hop
          exact UInt8.le_iff_toNat_le.mp hop.2
        · cases h

theorem Operation.mark?_of_item? {o : Operation} {item : Bytes} (h : o.item? = some item) : o.mark? = none := by
  have hle := toNat_opcode_le h
  refine Option.eq_none_iff_forall_not_mem.mpr fun k hk => ?_
  rw [eq_of_mark? hk] at hle
  cases k with
  | opens negated => cases negated <;> exact absurd hle (by decide)
  | separates | closes => exact absurd hle (by decide)

theorem Operation.isCounted_of_item? {o : Operation} {item : Bytes} (h : o.item? = some item) :
    o.opcode.isCounted = false := by
  refine decide_eq_false fun hlt => ?_
  exact absurd (toNat_opcode_le h) (Nat.not_le.mpr (UInt8.lt_iff_toNat_lt.mp hlt))

theorem Operation.isDisabled_of_item? {o : Operation} {item : Bytes} (h : o.item? = some item) :
    o.opcode.isDisabled = false := by
  refine eq_false_of_ne_true fun hd => ?_
  have hall : (Opcode.disabled.all fun op => 0x60 < op.toNat) = true := rfl
  have hlt := of_decide_eq_true (List.all_eq_true.mp hall _ (List.contains_iff_mem.mp hd))
  exact absurd (toNat_opcode_le h) (Nat.not_le.mpr hlt)

theorem Mark.eq_code (k : Mark) : k.operation = .code k.operation.opcode := by
  cases k <;> rfl

theorem Action.isPlain_ofOpcode {op : Opcode} (h : (Operation.code op).mark? = none) :
    (Action.ofOpcode op).isPlain = true := by
  have hne : ∀ k : Mark, op.toNat ≠ k.operation.opcode.toNat := by
    intro k hk
    refine Operation.ne_of_mark? h k ?_
    rw [k.eq_code, UInt8.toNat_inj.mp hk]
  unfold Action.ofOpcode
  split
  case h_2 hop => exact absurd hop (hne (.opens false))
  case h_3 hop => exact absurd hop (hne (.opens true))
  case h_4 hop => exact absurd hop (hne .separates)
  case h_5 hop => exact absurd hop (hne .closes)
  rotate_right
  · split <;> rfl
  all_goals rfl

/-! ### Operations -/

section
variable (c : Context) {env : Env} (m : Machine)

theorem checkItem_inside (o : Operation) : checkItem env o (m.inside c) = c.lift id (checkItem env o m) := by
  unfold checkItem
  cases o.item? with
  | none => rfl
  | some item => exact attempt_inside c m _

theorem count_inside (o : Operation) : count env o (m.inside c) = c.lift (inside c) (count env o m) :=
  lift_ite (bump_inside c env m 1) rfl

theorem execute1_inside {o : Operation} (ho : o.mark? = none) :
    execute1 env o (m.inside c) = c.lift (inside c) (execute1 env o m) := by
  unfold execute1
  cases hi : o.item? with
  | some item => exact lift_bind (attempt_inside c m _) fun _ => push_inside c env m item
  | none =>
    cases o with
    | push p => cases hi
    | code op => exact perform_inside c env m op (Action.isPlain_ofOpcode ho)

/-- A skipped operation that is no mark fails only if it is `OP_VERIF` or `OP_VERNOTIF`. -/
theorem skip1_eq {o : Operation} (ho : o.mark? = none) : skip1 env o m =
    if o.opcode = Opcode.opVerIf ∨ o.opcode = Opcode.opVerNotIf then m.fail (.invalidOpcode o.opcode) else .ok m := by
  unfold skip1
  cases hc : o.opcode.isConditional with
  | false =>
    rw [if_neg Bool.false_ne_true, if_neg]
    rintro (h | h) <;> rw [h] at hc <;> cases hc
  | true =>
    rw [if_pos rfl]
    cases o with
    | push p => exact absurd (p.isConditional_opcode.symm.trans hc) Bool.false_ne_true
    | code op =>
      rcases Opcode.isConditional_iff.mp hc with h | h | h | h | h | h
      · exact absurd (congrArg Operation.code h) (Operation.ne_of_mark? ho (.opens false))
      · exact absurd (congrArg Operation.code h) (Operation.ne_of_mark? ho (.opens true))
      · rw [if_pos (.inl h)]
        rw [h]
        rfl
      · rw [if_pos (.inr h)]
        rw [h]
        rfl
      · exact absurd (congrArg Operation.code h) (Operation.ne_of_mark? ho .separates)
      · exact absurd (congrArg Operation.code h) (Operation.ne_of_mark? ho .closes)

end

/-- The action of a mark. -/
def Mark.act : Mark → Machine → Except Halt Machine
  | opens negated => openIf negated
  | separates => Machine.otherwise
  | closes => closeIf

/-- A mark acts whether or not it is executed. -/
theorem Mark.act_eq {env : Env} (k : Mark) (e : Bool) (m : Machine) :
    (if e then execute1 env k.operation m else skip1 env k.operation m) = k.act m := by
  cases k with
  | opens negated => cases negated <;> cases e <;> rfl
  | separates | closes => cases e <;> rfl

theorem Mark.passOver_eq {env : Env} (k : Mark) (m : Machine) : m.passOver env k.operation = m.vet env k.operation := by
  have hne : ¬(k.operation.opcode = Opcode.opVerIf ∨ k.operation.opcode = Opcode.opVerNotIf) := by
    cases k with
    | opens negated => cases negated <;> decide
    | separates | closes => decide
  unfold passOver
  simp only [hne, if_false]
  exact bind_pure _

/-! ### What an operation is subject to -/

section
variable {env : Env} {m m' : Machine} {o : Operation}

theorem checkItem_eq_ok {u : Unit} :
    checkItem env o m = .ok u ↔ ∀ item ∈ o.item?, (item.length : Int) ≤ env.limits.itemSize := by
  unfold checkItem Limits.checkItemSize
  cases o.item? with
  | none => exact ⟨fun _ _ h => (nomatch h), fun _ => rfl⟩
  | some item =>
    dsimp only
    split
    · rename_i h
      refine ⟨fun _ item' h' => ?_, fun _ => rfl⟩
      cases h'
      exact h
    · rename_i h
      exact ⟨fun h' => (nomatch h'), fun h' => absurd (h' item rfl) h⟩

theorem count_eq_ok : count env o m = .ok m' ↔
    (o.opcode.isCounted = true → m.opCount + 1 ≤ env.limits.opsPerScript) ∧
      m' = { m with opCount := m.opCount + if o.opcode.isCounted then 1 else 0 } := by
  unfold count bump
  cases o.opcode.isCounted with
  | false =>
    rw [if_neg Bool.false_ne_true, if_neg Bool.false_ne_true, Int.add_zero, Except.ok.injEq, eq_comm]
    exact ⟨fun h => ⟨fun h' => absurd h' Bool.false_ne_true, h⟩, fun h => h.2⟩
  | true =>
    rw [if_pos rfl, if_pos rfl]
    dsimp only
    split
    · rename_i h
      exact ⟨fun h' => (nomatch h'), fun h' => absurd h (Int.not_lt.mpr (h'.1 rfl))⟩
    · rename_i h
      rw [Except.ok.injEq, eq_comm]
      exact ⟨fun h' => ⟨fun _ => Int.not_lt.mp h, h'⟩, fun h' => h'.2⟩

theorem vet_eq_ok : m.vet env o = .ok m' ↔
    (∀ item ∈ o.item?, (item.length : Int) ≤ env.limits.itemSize) ∧
      (o.opcode.isCounted = true → m.opCount + 1 ≤ env.limits.opsPerScript) ∧ o.opcode.isDisabled = false ∧
      m' = { m.advance o with opCount := m.opCount + if o.opcode.isCounted then 1 else 0 } := by
  unfold vet
  simp only [bind_eq_ok, checkItem_eq_ok, count_eq_ok]
  cases o.opcode.isDisabled with
  | true => exact ⟨fun ⟨_, _, _, _, h⟩ => (nomatch h), fun ⟨_, _, h, _⟩ => (nomatch h)⟩
  | false =>
    constructor
    · rintro ⟨_, hitem, _, ⟨hcount, rfl⟩, h⟩
      exact ⟨hitem, hcount, rfl, (Except.ok.inj h).symm⟩
    · rintro ⟨hitem, hcount, -, rfl⟩
      exact ⟨(), hitem, _, ⟨hcount, rfl⟩, rfl⟩

/-- An operation that is passed over is subject to the limits on items and operations and must be neither disabled
    nor `OP_VERIF` or `OP_VERNOTIF`; it is counted, and nothing else happens. -/
theorem passOver_eq_ok : m.passOver env o = .ok m' ↔
    (∀ item ∈ o.item?, (item.length : Int) ≤ env.limits.itemSize) ∧
      (o.opcode.isCounted = true → m.opCount + 1 ≤ env.limits.opsPerScript) ∧ o.opcode.isDisabled = false ∧
      (o.opcode ≠ Opcode.opVerIf ∧ o.opcode ≠ Opcode.opVerNotIf) ∧
      m' = { m.advance o with opCount := m.opCount + if o.opcode.isCounted then 1 else 0 } := by
  unfold passOver
  simp only [bind_eq_ok, vet_eq_ok]
  constructor
  · rintro ⟨_, ⟨hitem, hcount, hdisabled, rfl⟩, h⟩
    split at h
    · cases h
    · rename_i hver
      exact ⟨hitem, hcount, hdisabled, not_or.mp hver, (Except.ok.inj h).symm⟩
  · rintro ⟨hitem, hcount, hdisabled, hver, rfl⟩
    exact ⟨_, ⟨hitem, hcount, hdisabled, rfl⟩, if_neg (not_or.mpr hver)⟩

end

end SpendScript
