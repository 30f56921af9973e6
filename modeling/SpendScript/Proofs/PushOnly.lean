import SpendScript.Proofs.CanonicalPush

/-! # Scripts of pushes

Whether a script is made of pushes, and of shortest ones, is told without running it. A run that has room for the items
comes to the same answers: it fails only on an `OP_RESERVED`, or under the flag on a push that is not the shortest
(`runScript_pushOnly`). Whether a push of data is the shortest is told from its length and its encoding, which agrees
with its first byte (`PushData.isMinimal_iff`). -/

namespace SpendScript

/-! ### Pushes of data -/

namespace PushData
variable {p : PushData}

/-- Data that an opcode pushes by itself is never pushed in the shortest way. -/
theorem opcode_ne_of_single? {op : Opcode} (h : Push.single? p.data = some op) : p.opcode ≠ op := by
  intro hop
  have hsame : Operation.push p = .code op := Operation.eq_of_opcode rfl (Push.constant?_of_single? h) hop
  cases hsame

theorem isMinimal_of_single? {op : Opcode} (h : Push.single? p.data = some op) : p.isMinimal = false := by
  have hle := Push.length_le_of_single? h
  have hop : Push.opcode p.data = op := by rw [Push.opcode, h, Option.getD_some]
  cases hdata : p.data with
  | nil =>
    have hencoding : p.encoding ≠ .direct := by
      intro hdirect
      have haccepted := p.accepted
      rw [hdirect, hdata] at haccepted
      exact absurd haccepted.1 (by decide)
    simp [isMinimal, hdata, PushEncoding.shortest, hencoding]
  | cons b rest =>
    have hne : Push.opcode p.data ≠ 1 := by
      intro hone
      have hconstant := Push.constant?_of_single? h
      rw [← hop, hone] at hconstant
      cases hconstant
    have hlen : p.data.length = 1 := by
      rw [hdata, List.length_cons] at hle ⊢
      omega
    simp [isMinimal, hlen, hne]

/-- The test by length and encoding is the comparison of the first bytes. -/
theorem isMinimal_iff : p.isMinimal = true ↔ p.opcode = Push.opcode p.data := by
  cases hsingle : Push.single? p.data with
  | some op =>
    rw [isMinimal_of_single? hsingle, Push.opcode, hsingle, Option.getD_some]
    exact ⟨fun h => absurd h Bool.false_ne_true, fun h => absurd h (opcode_ne_of_single? hsingle)⟩
  | none =>
    have hop : Push.opcode p.data = (PushEncoding.shortest p.data.length).opcode p.data.length := by
      rw [Push.opcode, hsingle, Option.getD_none]
    have hone : ¬(p.data.length = 1 ∧ Push.opcode p.data ≠ 1) := by
      rintro ⟨hlen, hne⟩
      rw [hop, hlen] at hne
      exact hne rfl
    have haccepted := Push.accepts_shortest (PushEncoding.lt_of_accepts p.accepted) hsingle
    have hencoding : p.encoding = PushEncoding.shortest p.data.length ↔ p.opcode = Push.opcode p.data := by
      rw [hop]
      exact ⟨fun h => congrArg (·.opcode p.data.length) h, PushEncoding.opcode_inj p.accepted haccepted⟩
    rw [← hencoding]
    simp [isMinimal, hone]

end PushData

/-! ### Operations up to `OP_16` -/

theorem Operation.item?_or_reserved {o : Operation} (hdistinct : o.isDistinct = true) (hop : o.opcode ≤ Opcode.op16) :
    o.item?.isSome = true ∨ o = .code Opcode.reserved := by
  cases o with
  | push p => exact Or.inl rfl
  | code op =>
    by_cases hreserved : op = Opcode.reserved
    · exact Or.inr (congrArg Operation.code hreserved)
    · refine Or.inl ?_
      show (constant? op).isSome = true
      unfold constant?
      split
      · rfl
      · rename_i hzero
        split
        · rfl
        · rename_i hnegate
          have hne : ∀ c : Opcode, op ≠ c → op.toNat ≠ c.toNat := fun c hc he => hc (UInt8.toNat_inj.mp he)
          have hlow : 0x4f ≤ op.toNat :=
            UInt8.le_iff_toNat_le.mp ((of_decide_eq_true hdistinct).resolve_left hzero)
          have h1 : op.toNat ≠ 0x4f := hne _ hnegate
          have h2 : op.toNat ≠ 0x50 := hne _ hreserved
          have hsmall : Opcode.op1 ≤ op ∧ op ≤ Opcode.op16 := by
            refine ⟨UInt8.le_iff_toNat_le.mpr ?_, hop⟩
            show 0x51 ≤ op.toNat
            omega
          rw [if_pos hsmall]
          rfl

namespace Script
variable {script : Bytes}

theorem decode_of_isPushOnly (h : isPushOnly script = true) : decode script = .ok (listing script).ops ∧
    ∀ o ∈ (listing script).ops, o.item?.isSome = true ∨ o = .code Opcode.reserved := by
  obtain ⟨hcut, hall⟩ := (Bool.and_eq_true _ _).mp h
  constructor
  · unfold decode Listing.complete
    rw [Option.isNone_iff_eq_none.mp hcut]
  · intro o ho
    exact Operation.item?_or_reserved (isDistinct_scan o ho) (of_decide_eq_true (List.all_eq_true.mp hall o ho))

theorem isMinimalPushOnly_iff_forall (h : isPushOnly script = true) : isMinimalPushOnly script = true ↔
    ∀ o ∈ (listing script).ops, ∃ item, o.item? = some item ∧ o.opcode = Push.opcode item := by
  obtain ⟨hcut, -⟩ := (Bool.and_eq_true _ _).mp h
  have hshortest : ∀ o, isShortestPush o = true ↔ ∃ item, o.item? = some item ∧ o.opcode = Push.opcode item := by
    intro o
    rw [isShortestPush_iff]
    exact exists_congr fun item => and_congr_right fun hitem => Operation.eq_operation_iff hitem
  unfold isMinimalPushOnly
  dsimp only
  rw [Bool.and_eq_true, List.all_eq_true]
  simp only [hshortest]
  exact ⟨fun hall => hall.2, fun hall => ⟨hcut, hall⟩⟩

theorem reserved_not_mem_iff (h : isPushOnly script = true) : .code Opcode.reserved ∉ (listing script).ops ↔
    ∀ o ∈ (listing script).ops, ∃ item, o.item? = some item := by
  constructor
  · intro hnot o ho
    rcases (decode_of_isPushOnly h).2 o ho with hsome | rfl
    · exact Option.isSome_iff_exists.mp hsome
    · exact absurd ho hnot
  · intro hall hmem
    obtain ⟨item, hitem⟩ := hall _ hmem
    cases hitem

end Script

/-! ### Runs -/

open Machine

section
variable {env : Env} {m : Machine} {script : Bytes} (hpush : Script.isPushOnly script = true)
  (hscript : (script.length : Int) ≤ env.limits.scriptSize)
  (hsize : ∀ item ∈ Script.items script, (item.length : Int) ≤ env.limits.itemSize)
  (hroom : Script.items script ≠ [] → (m.stack.length : Int) + (Script.items script).length ≤ env.limits.stackSize)
include hpush hscript hsize hroom

/-- A run of pushes comes to its end if each of them passes, and adds the items to the stack. -/
theorem runScript_pushes {s : List Bytes} : (∃ m', m.runScript env script = .ok m' ∧ m'.stack = s) ↔
    (∀ o ∈ (Script.listing script).ops, ∃ item, o.item? = some item ∧
      (env.limits.flags.has .requireMinimalPush = true → o.opcode = Push.opcode item)) ∧
    (Script.items script).reverse ++ m.stack = s := by
  obtain ⟨hdecode, hops⟩ := Script.decode_of_isPushOnly hpush
  have hplain : ∀ o ∈ (Script.listing script).ops, o.mark? = none := by
    intro o ho
    rcases hops o ho with hsome | rfl
    · obtain ⟨item, hitem⟩ := Option.isSome_iff_exists.mp hsome
      exact Operation.mark?_of_item? hitem
    · rfl
  have hfold := fun m' => @foldlM_act_eq_ok env (m.begin script) _ m' hops hsize hroom
  rw [← report_eq_none, runScript_straight hdecode hplain hscript, report_eq_none]
  simp only [hfold]
  constructor
  · rintro ⟨m', ⟨hpass, rfl⟩, hstack⟩
    exact ⟨hpass, hstack⟩
  · rintro ⟨hpass, hstack⟩
    exact ⟨_, ⟨hpass, rfl⟩, hstack⟩

theorem exists_runScript_pushes : (∃ m', m.runScript env script = .ok m') ↔
    ∀ o ∈ (Script.listing script).ops, ∃ item, o.item? = some item ∧
      (env.limits.flags.has .requireMinimalPush = true → o.opcode = Push.opcode item) := by
  constructor
  · rintro ⟨m', hrun⟩
    exact ((runScript_pushes hpush hscript hsize hroom).mp ⟨m', hrun, rfl⟩).1
  · intro hpass
    obtain ⟨m', hrun, -⟩ := (runScript_pushes hpush hscript hsize hroom).mpr ⟨hpass, rfl⟩
    exact ⟨m', hrun⟩

end

/-- A script of operations up to `OP_16` that is not too long, with items that are not too large and that there is room for.
    Under the flag its run succeeds if and only if it is made of shortest pushes, without the flag if and only if it has no
    `OP_RESERVED`, and then its items are on top of the stack, the last of them topmost. A push of data is the shortest if and
    only if its first byte is that of the shortest push. -/
theorem runScript_pushOnly :
    (∀ (env : Env) (m : Machine) (script : Bytes), Script.isPushOnly script = true →
      (script.length : Int) ≤ env.limits.scriptSize →
      (∀ item ∈ Script.items script, (item.length : Int) ≤ env.limits.itemSize) →
      (Script.items script ≠ [] → (m.stack.length : Int) + (Script.items script).length ≤ env.limits.stackSize) →
      (env.limits.flags.has .requireMinimalPush = true →
        ((∃ m', m.runScript env script = .ok m') ↔ Script.isMinimalPushOnly script = true)) ∧
      (env.limits.flags.has .requireMinimalPush = false →
        ((∃ m', m.runScript env script = .ok m') ↔ .code Opcode.reserved ∉ (Script.listing script).ops)) ∧
      ∀ m', m.runScript env script = .ok m' → m'.stack = (Script.items script).reverse ++ m.stack) ∧
    ∀ p : PushData, p.isMinimal = true ↔ p.toBytes.head? = some (Push.opcode p.data) := by
  refine ⟨fun env m script hpush hscript hsize hroom => ⟨fun hflag => ?_, fun hflag => ?_, fun m' hrun => ?_⟩, fun p => ?_⟩
  · rw [exists_runScript_pushes hpush hscript hsize hroom, Script.isMinimalPushOnly_iff_forall hpush]
    simp only [hflag, true_imp_iff]
  · rw [exists_runScript_pushes hpush hscript hsize hroom, Script.reserved_not_mem_iff hpush]
    simp only [hflag, Bool.false_eq_true, false_imp_iff, and_true]
  · exact ((runScript_pushes hpush hscript hsize hroom).mp ⟨m', hrun, rfl⟩).2.symm
  · exact PushData.isMinimal_iff.trans Option.some_inj.symm

/-- `OP_0`, `OP_1NEGATE`, `OP_2` and a direct push pass under the flag. A push of 5 after its length in a byte of its own does
    not, but it does without the flag, and `OP_RESERVED` never does. -/
theorem runScript_pushOnly_mixed :
    (∃ m', runScript ⟨{ flags := .single .requireMinimalPush }, none, .standard⟩ [0x00, 0x4f, 0x52, 0x02, 0x07, 0x08]
      { stack := [[9]] } = .ok m' ∧ m'.stack = [[7, 8], [2], [0x81], [], [9]]) ∧
    (¬∃ m', runScript ⟨{ flags := .single .requireMinimalPush }, none, .standard⟩ [0x4c, 0x01, 0x05] { } = .ok m') ∧
    (∃ m', runScript ⟨{ }, none, .standard⟩ [0x4c, 0x01, 0x05] { } = .ok m' ∧ m'.stack = [[5]]) ∧
    (¬∃ m', runScript ⟨{ }, none, .standard⟩ [0x51, 0x50] { } = .ok m') ∧
    PushData.isMinimal ⟨[5], .one, by decide⟩ ≠ true := by
  obtain ⟨hrun, hpush⟩ := runScript_pushOnly
  obtain ⟨hshortest, -, hstack⟩ := hrun ⟨{ flags := .single .requireMinimalPush }, none, .standard⟩ { stack := [[9]] }
    [0x00, 0x4f, 0x52, 0x02, 0x07, 0x08] rfl (by decide) (by decide) (fun _ => by decide)
  obtain ⟨hlong, -⟩ := hrun ⟨{ flags := .single .requireMinimalPush }, none, .standard⟩ { } [0x4c, 0x01, 0x05] rfl
    (by decide) (by decide)
    (fun _ => by decide)
  obtain ⟨-, hloose, hstack'⟩ := hrun ⟨{ }, none, .standard⟩ { } [0x4c, 0x01, 0x05] rfl (by decide) (by decide)
    (fun _ => by decide)
  obtain ⟨-, hreserved, -⟩ := hrun ⟨{ }, none, .standard⟩ { } [0x51, 0x50] rfl (by decide) (by decide) (fun _ => by decide)
  obtain ⟨m', hm'⟩ := (hshortest rfl).mpr rfl
  obtain ⟨m'', hm''⟩ := (hloose rfl).mpr (by decide)
  refine ⟨⟨m', hm', hstack m' hm'⟩, fun h => ?_, ⟨m'', hm'', hstack' m'' hm''⟩, fun h => ?_, fun h => ?_⟩
  · cases (hlong rfl).mp h
  · exact (hreserved rfl).mp h (by decide)
  · cases (hpush _).mp h

end SpendScript
