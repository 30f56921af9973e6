import SpendScript.Proofs.StraightLine
import SpendScript.Script.Build

/-! # Shortest pushes

Every item below 2^32 bytes has one shortest push (`Push.operation`), which is read back and which the flag for minimal
pushes lets pass. A script of such pushes leaves their items on the stack (`runScript_operations`). -/

namespace SpendScript

/-! ### The operation of an item -/

/-- An operation that pushes an item is told by its first byte. -/
theorem Operation.isDistinct_of_item? {o : Operation} {item : Bytes} (h : o.item? = some item) :
    o.isDistinct = true := by
  cases o with
  | push p => rfl
  | code op =>
    refine decide_eq_true ?_
    change constant? op = some item at h
    unfold constant? at h
    split at h
    · rename_i hop
      exact Or.inl hop
    · split at h
      · rename_i hop
        rw [hop]
        exact Or.inr (by decide)
      · split at h
        · rename_i hop
          exact Or.inr (UInt8.le_trans (by decide) hop.1)
        · cases h

theorem PushEncoding.accepts_shortest {size : Nat} (hpos : 1 ≤ size) (h : size < 2 ^ 32) :
    (PushEncoding.shortest size).Accepts size := by
  unfold PushEncoding.shortest
  split
  · exact ⟨hpos, by show size ≤ 75; omega⟩
  · split
    · exact ⟨Nat.zero_le _, by show size ≤ 255; omega⟩
    · split
      · exact ⟨Nat.zero_le _, by show size ≤ 65535; omega⟩
      · exact ⟨Nat.zero_le _, by show size ≤ 4294967295; omega⟩

namespace Push

/-- The shortest push of an item; items of 2^32 bytes or more have none, and `OP_0` stands in for it. -/
def operation (item : Bytes) : Operation :=
  match single? item with
  | some op => .code op
  | none =>
    if h : (PushEncoding.shortest item.length).Accepts item.length then .push ⟨item, _, h⟩ else .code Opcode.op0

theorem constant?_of_single? {item : Bytes} {op : Opcode} (h : single? item = some op) :
    Operation.constant? op = some item := by
  have hsmall : ∀ n : Fin 17, 1 ≤ n.val →
      Operation.constant? (Opcode.op1 + UInt8.ofNat n.val - 1) = some [UInt8.ofNat n.val] := by decide
  match item with
  | [] =>
    cases h
    rfl
  | [b] =>
    change (if 1 ≤ b ∧ b ≤ 16 then _ else if b = 0x81 then _ else none) = some op at h
    split at h
    · rename_i hb
      cases h
      have hlow := UInt8.le_iff_toNat_le.mp hb.1
      have hhigh := UInt8.le_iff_toNat_le.mp hb.2
      have hb' := hsmall ⟨b.toNat, Nat.lt_succ_of_le hhigh⟩ hlow
      rwa [UInt8.ofNat_toNat] at hb'
    · split at h
      · rename_i hb
        cases h
        rw [hb]
        rfl
      · cases h
  | _ :: _ :: _ => cases h

section
variable {item : Bytes} (h : item.length < 2 ^ 32)
include h

theorem accepts_shortest (hsingle : single? item = none) :
    (PushEncoding.shortest item.length).Accepts item.length := by
  refine PushEncoding.accepts_shortest ?_ h
  cases item with
  | nil => cases hsingle
  | cons b rest => exact Nat.succ_le_succ (Nat.zero_le _)

/-- The shortest push is an opcode of its own, or pushes the item as data. -/
theorem operation_cases : (∃ op, single? item = some op ∧ operation item = .code op) ∨
    ∃ p : PushData, single? item = none ∧ operation item = .push p ∧ p.data = item ∧
      p.encoding = PushEncoding.shortest item.length := by
  unfold operation
  cases hsingle : single? item with
  | some op => exact Or.inl ⟨op, rfl, rfl⟩
  | none =>
    have hacc := accepts_shortest h hsingle
    dsimp only
    rw [dif_pos hacc]
    exact Or.inr ⟨_, rfl, rfl, rfl, rfl⟩

theorem item?_operation : (operation item).item? = some item := by
  rcases operation_cases h with ⟨op, hsingle, ho⟩ | ⟨p, -, ho, hdata, -⟩
  · rw [ho]
    exact constant?_of_single? hsingle
  · rw [ho]
    exact congrArg some hdata

theorem opcode_operation : (operation item).opcode = opcode item := by
  unfold opcode
  rcases operation_cases h with ⟨op, hsingle, ho⟩ | ⟨p, hsingle, ho, hdata, hencoding⟩
  · rw [ho, hsingle]
    rfl
  · rw [ho, hsingle]
    show p.encoding.opcode p.data.length = _
    rw [hdata, hencoding]
    rfl

theorem toBytes_operation : (operation item).toBytes = encode item := by
  unfold encode
  rcases operation_cases h with ⟨op, hsingle, ho⟩ | ⟨p, hsingle, ho, hdata, hencoding⟩
  · rw [ho, hsingle]
    rfl
  · rw [ho, hsingle]
    show p.encoding.opcode p.data.length :: Bytes.ofNatLE p.encoding.lengthWidth p.data.length ++ p.data = _
    rw [hdata, hencoding]

theorem isDistinct_operation : (operation item).isDistinct = true :=
  Operation.isDistinct_of_item? (item?_operation h)

theorem size_operation_le : (operation item).size ≤ item.length + 5 := by
  rcases operation_cases h with ⟨op, -, ho⟩ | ⟨p, -, ho, hdata, -⟩
  · rw [ho]
    exact Nat.le_add_left 1 _
  · rw [ho]
    have hwidth : p.encoding.lengthWidth ≤ 4 := by cases p.encoding <;> decide
    show 1 + p.encoding.lengthWidth + p.data.length ≤ _
    rw [hdata]
    omega

end

/-- Items are told apart by their shortest pushes. -/
theorem operation_inj {item item' : Bytes} (h : item.length < 2 ^ 32) (h' : item'.length < 2 ^ 32)
    (heq : operation item = operation item') : item = item' := by
  have hitem := item?_operation h
  rw [heq, item?_operation h'] at hitem
  exact (Option.some.inj hitem).symm

end Push

/-! ### Scripts of pushes -/

section
variable {items : List Bytes} (h : ∀ item ∈ items, item.length < 2 ^ 32)
include h

theorem isDistinct_operations : ∀ o ∈ items.map Push.operation, o.isDistinct = true :=
  List.forall_mem_map.mpr fun item hitem => Push.isDistinct_operation (h item hitem)

theorem plain_operations : ∀ o ∈ items.map Push.operation, o.mark? = none :=
  List.forall_mem_map.mpr fun item hitem => Operation.mark?_of_item? (Push.item?_operation (h item hitem))

theorem items_operations : ∀ o ∈ items.map Push.operation, o.item?.isSome = true := by
  refine List.forall_mem_map.mpr fun item hitem => ?_
  rw [Push.item?_operation (h item hitem)]
  rfl

theorem filterMap_operations : (items.map Push.operation).filterMap Operation.item? = items := by
  induction items with
  | nil => rfl
  | cons item items ih =>
    obtain ⟨hitem, hitems⟩ := List.forall_mem_cons.mp h
    rw [List.map_cons, List.filterMap_cons_some (Push.item?_operation hitem), ih hitems]

end

namespace Script

theorem pushMany_eq {items : List Bytes} (h : ∀ item ∈ items, item.length < 2 ^ 32) :
    pushMany items = .ok (ofOps (items.map Push.operation)) := by
  have hparts : (items.map Piece.data).mapM Piece.bytes = .ok (items.map fun item => (Push.operation item).toBytes) := by
    induction items with
    | nil => rfl
    | cons item items ih =>
      have hitem := h item List.mem_cons_self
      have hpush : Piece.bytes (.data item) = .ok (Push.operation item).toBytes := by
        rw [Push.toBytes_operation hitem]
        exact if_pos hitem
      rw [List.map_cons, List.mapM_cons, hpush, ih fun item hi => h item (List.mem_cons_of_mem _ hi)]
      rfl
  unfold pushMany appendAll
  rw [hparts]
  show Except.ok (items.map _).flatten = Except.ok ((items.map Push.operation).flatMap Operation.toBytes)
  rw [List.flatMap_def, List.map_map]
  rfl

theorem length_ofOps_le {ops : List Operation} {k : Nat} (h : ∀ o ∈ ops, o.size ≤ k) :
    (ofOps ops).length ≤ ops.length * k := by
  induction ops with
  | nil => exact Nat.zero_le _
  | cons o ops ih =>
    have hfirst := h o List.mem_cons_self
    have hrest := ih fun o ho => h o (List.mem_cons_of_mem _ ho)
    show (o.toBytes ++ ofOps ops).length ≤ _
    rw [List.length_append, o.length_toBytes, List.length_cons, Nat.succ_mul]
    omega

theorem isPushOnly_ofOps {ops : List Operation} (h : ∀ o ∈ ops, o.item?.isSome = true) :
    isPushOnly (ofOps ops) = true := by
  have hitem : ∀ o ∈ ops, ∃ item, o.item? = some item := fun o ho => Option.isSome_iff_exists.mp (h o ho)
  have hdistinct : ∀ o ∈ ops, o.isDistinct = true := by
    intro o ho
    obtain ⟨item, hi⟩ := hitem o ho
    exact Operation.isDistinct_of_item? hi
  obtain ⟨hops, hcut⟩ := listing_of_decode (decode_ofOps hdistinct)
  unfold isPushOnly
  dsimp only
  rw [hops, hcut]
  refine List.all_eq_true.mpr fun o ho => decide_eq_true ?_
  obtain ⟨item, hi⟩ := hitem o ho
  exact UInt8.le_iff_toNat_le.mpr (Operation.toNat_opcode_le hi)

theorem ofOps_operations {items : List Bytes} (h : ∀ item ∈ items, item.length < 2 ^ 32) :
    ofOps (items.map Push.operation) = items.flatMap Push.encode := by
  induction items with
  | nil => rfl
  | cons item items ih =>
    show (Push.operation item).toBytes ++ ofOps (items.map Push.operation) = _
    rw [Push.toBytes_operation (h item List.mem_cons_self), ih fun item hi => h item (List.mem_cons_of_mem _ hi)]
    rfl

end Script

/-! ### Runs of pushes -/

/-- The state after pushes of items that take some bytes together. -/
def Machine.pushed (m : Machine) (items : List Bytes) (bytes : Nat) : Machine :=
  { m with stack := items.reverse ++ m.stack, cursor := m.cursor.map (·.advance bytes) }

open Machine

section
variable {env : Env} {m : Machine} {items : List Bytes}

theorem pushed_nil : m.pushed [] 0 = m := by
  obtain ⟨stack, alt, conditions, execute, opCount, cursor, calls⟩ := m
  cases cursor <;> rfl

theorem pushed_cons (item : Bytes) (items : List Bytes) (a b : Nat) :
    (m.pushed [item] a).pushed items b = m.pushed (item :: items) (a + b) := by
  obtain ⟨stack, alt, conditions, execute, opCount, cursor, calls⟩ := m
  have hadvance : ∀ c : Cursor, (c.advance a).advance b = c.advance (a + b) := by
    intro c
    unfold Cursor.advance
    rw [Nat.add_assoc]
  unfold pushed
  simp only [List.reverse_cons, List.append_assoc, List.reverse_nil, List.nil_append, List.cons_append, Option.map_map,
    Function.comp_def, hadvance]

theorem code_pushed (bytes : Nat) : (m.pushed items bytes).code = m.code := by
  obtain ⟨stack, alt, conditions, execute, opCount, cursor, calls⟩ := m
  cases cursor <;> rfl

theorem not_act_reserved {m' : Machine} : m.act env (.code Opcode.reserved) ≠ .ok m' := by
  intro h
  obtain ⟨m₁, -, hact⟩ := bind_eq_ok.mp h
  cases hact

/-- Pushes that there is room for succeed if each of them passes, and leave their items, the last of them on top. An
    `OP_RESERVED` among them never passes. -/
theorem foldlM_act_eq_ok {ops : List Operation} {m' : Machine}
    (hops : ∀ o ∈ ops, o.item?.isSome = true ∨ o = .code Opcode.reserved)
    (hsize : ∀ item ∈ ops.filterMap Operation.item?, (item.length : Int) ≤ env.limits.itemSize)
    (hroom : ops.filterMap Operation.item? ≠ [] →
      (m.size : Int) + (ops.filterMap Operation.item?).length ≤ env.limits.stackSize) :
    ops.foldlM (act env) m = .ok m' ↔
      (∀ o ∈ ops, ∃ item, o.item? = some item ∧
        (env.limits.flags.has .requireMinimalPush = true → o.opcode = Push.opcode item)) ∧
      m' = m.pushed (ops.filterMap Operation.item?) (Script.ofOps ops).length := by
  induction ops generalizing m with
  | nil =>
    refine ⟨fun h => ⟨nofun, ?_⟩, fun h => congrArg Except.ok (pushed_nil.symm.trans h.2.symm)⟩
    exact (Except.ok.inj h).symm.trans pushed_nil.symm
  | cons o ops ih =>
    obtain ⟨hfirst, hrest⟩ := List.forall_mem_cons.mp hops
    rw [List.foldlM_cons, bind_eq_ok, List.forall_mem_cons]
    rcases hfirst with hsome | rfl
    · obtain ⟨item, hitem⟩ := Option.isSome_iff_exists.mp hsome
      rw [List.filterMap_cons_some hitem] at hsize hroom ⊢
      obtain ⟨hlen, hlens⟩ := List.forall_mem_cons.mp hsize
      have hall := hroom (List.cons_ne_nil _ _)
      rw [List.length_cons] at hall
      have hgrown : (m.pushed [item] o.size).size = m.size + 1 := by
        show m.stack.length + 1 + m.alt.length = m.stack.length + m.alt.length + 1
        omega
      have hbytes : o.size + (Script.ofOps ops).length = (Script.ofOps (o :: ops)).length := by
        rw [← o.length_toBytes, ← List.length_append]
        rfl
      have hlater := ih (m := m.pushed [item] o.size) hrest hlens (by omega)
      rw [pushed_cons, hbytes] at hlater
      constructor
      · rintro ⟨m₁, hact, hfold⟩
        obtain ⟨-, hmin, -, rfl⟩ := (act_item_eq_ok hitem).mp hact
        obtain ⟨hpass, hm'⟩ := hlater.mp hfold
        exact ⟨⟨⟨item, hitem, hmin⟩, hpass⟩, hm'⟩
      · rintro ⟨⟨⟨item', hitem', hmin⟩, hpass⟩, hm'⟩
        cases hitem.symm.trans hitem'
        exact ⟨m.pushed [item] o.size, (act_item_eq_ok hitem).mpr ⟨hlen, hmin, by omega, rfl⟩, hlater.mpr ⟨hpass, hm'⟩⟩
    · constructor
      · rintro ⟨m₁, hact, -⟩
        exact absurd hact not_act_reserved
      · rintro ⟨⟨⟨item, hitem, -⟩, -⟩, -⟩
        cases hitem

/-- Shortest pushes that there is room for leave their items, the last of them on top. -/
theorem foldlM_act_operations (hlen : ∀ item ∈ items, item.length < 2 ^ 32)
    (hsize : ∀ item ∈ items, (item.length : Int) ≤ env.limits.itemSize)
    (hroom : (m.size : Int) + items.length ≤ env.limits.stackSize) :
    (items.map Push.operation).foldlM (act env) m =
      .ok (m.pushed items (Script.ofOps (items.map Push.operation)).length) := by
  have hitems := filterMap_operations hlen
  refine (foldlM_act_eq_ok (fun o ho => Or.inl (items_operations hlen o ho)) ?_ ?_).mpr ⟨?_, ?_⟩
  · rwa [hitems]
  · rw [hitems]
    exact fun _ => hroom
  · refine List.forall_mem_map.mpr fun item hitem => ?_
    exact ⟨item, Push.item?_operation (hlen item hitem), fun _ => Push.opcode_operation (hlen item hitem)⟩
  · rw [hitems]

/-- A script of shortest pushes adds its items to the stack. -/
theorem runScript_operations (hlen : ∀ item ∈ items, item.length < 2 ^ 32)
    (hsize : ∀ item ∈ items, (item.length : Int) ≤ env.limits.itemSize)
    (hroom : (m.stack.length + items.length : Int) ≤ env.limits.stackSize)
    (hscript : ((Script.ofOps (items.map Push.operation)).length : Int) ≤ env.limits.scriptSize) :
    report (m.runScript env (Script.ofOps (items.map Push.operation))) = (none, items.reverse ++ m.stack) := by
  have hdecode := Script.decode_ofOps (isDistinct_operations hlen)
  have hbegin : ((m.begin (Script.ofOps (items.map Push.operation))).size : Int) + items.length ≤ env.limits.stackSize :=
    hroom
  rw [runScript_straight hdecode (plain_operations hlen) hscript, foldlM_act_operations hlen hsize hbegin]
  rfl

end

end SpendScript
