import SpendScript.Proofs.ShortestPush

/-! # Shortest pushes as a normal form

An item is pushed by its shortest push and by longer ones, which differ from it in their first byte
(`Operation.eq_operation_iff`) and in their size (`Operation.size_operation`). A script of shortest pushes is
therefore determined by the items that it pushes, and it is the only script of its kind that pushes them
(`Script.pushes_canonical`). -/

namespace SpendScript

/-! ### Encodings -/

namespace PushEncoding

theorem lengthWidth_inj {e e' : PushEncoding} (h : e.lengthWidth = e'.lengthWidth) : e = e' := by
  cases e <;> cases e' <;> first | rfl | cases h

theorem lengthWidth_shortest_le {e : PushEncoding} {size : Nat} (h : e.Accepts size) :
    (shortest size).lengthWidth ≤ e.lengthWidth := by
  obtain ⟨-, hle⟩ := h
  cases e with
  | direct =>
    have hsize : size < 76 := Nat.lt_succ_of_le hle
    simp [shortest, hsize]
  | one =>
    have hsize : size ≤ 255 := hle
    simp only [shortest, hsize, if_true]
    split <;> decide
  | two =>
    have hsize : size ≤ 65535 := hle
    simp only [shortest, hsize, if_true]
    split
    · decide
    · split <;> decide
  | four => cases shortest size <;> decide

/-- The encodings that accept a length give it different opcodes. -/
theorem opcode_inj {e e' : PushEncoding} {size : Nat} (h : e.Accepts size) (h' : e'.Accepts size)
    (hop : e.opcode size = e'.opcode size) : e = e' := by
  -- the opcode of a direct push is a length, which lies below the opcodes of the other encodings
  have hdirect : ∀ op ∈ [Opcode.pushData1, Opcode.pushData2, Opcode.pushData4], direct.Accepts size →
      UInt8.ofNat size ≠ op := by
    rintro op hop ⟨-, hle⟩ rfl
    have hsize : size ≤ 75 := hle
    have hnat : (UInt8.ofNat size).toNat = size := by
      rw [UInt8.toNat_ofNat']
      omega
    simp only [List.mem_cons, List.not_mem_nil, or_false, ← UInt8.toNat_inj, hnat] at hop
    rcases hop with rfl | rfl | rfl <;> exact absurd hsize (by decide)
  cases e with
  | direct =>
    cases e' with
    | direct => rfl
    | one | two | four => exact absurd hop (hdirect _ (by simp [opcode]) h)
  | one | two | four =>
    cases e' with
    | direct => exact absurd hop.symm (hdirect _ (by simp [opcode]) h')
    | one | two | four => first | rfl | cases hop

theorem lt_of_accepts {e : PushEncoding} {size : Nat} (h : e.Accepts size) : size < 2 ^ 32 := by
  have hle : size ≤ e.greatest := h.2
  have hgreatest : e.greatest < 2 ^ 32 := by cases e <;> decide
  omega

end PushEncoding

/-! ### Operations that push one item -/

namespace Push

theorem single?_of_constant? {op : Opcode} {item : Bytes} (h : Operation.constant? op = some item) :
    single? item = some op := by
  have hsmall : ∀ n : Fin 16, single? [UInt8.ofNat (0x51 + n.val) - Opcode.op1 + 1] = some (UInt8.ofNat (0x51 + n.val)) := by
    decide
  unfold Operation.constant? at h
  split at h
  · rename_i hop
    cases h
    rw [hop]
    rfl
  · split at h
    · rename_i hop
      cases h
      rw [hop]
      rfl
    · split at h
      · rename_i hop
        cases h
        have hlow : 0x51 ≤ op.toNat := UInt8.le_iff_toNat_le.mp hop.1
        have hhigh : op.toNat ≤ 0x60 := UInt8.le_iff_toNat_le.mp hop.2
        have hop' := hsmall ⟨op.toNat - 0x51, by omega⟩
        rwa [Nat.add_sub_cancel' hlow, UInt8.ofNat_toNat] at hop'
      · cases h

theorem length_le_of_single? {item : Bytes} {op : Opcode} (h : single? item = some op) : item.length ≤ 1 := by
  match item with
  | [] | [_] => simp
  | _ :: _ :: _ => cases h

end Push

theorem PushData.eq_of_encoding {p q : PushData} (hencoding : p.encoding = q.encoding) (hdata : p.data = q.data) :
    p = q := by
  cases p
  cases q
  cases hencoding
  cases hdata
  rfl

theorem PushData.eq_of_opcode {p q : PushData} (hop : p.opcode = q.opcode) (hdata : p.data = q.data) : p = q := by
  unfold opcode at hop
  rw [← hdata] at hop
  exact eq_of_encoding (PushEncoding.opcode_inj p.accepted (hdata ▸ q.accepted) hop) hdata

theorem PushData.one_lt_size (p : PushData) : 1 < p.size := by
  have hleast := p.accepted.1
  have hsize : p.size = 1 + p.encoding.lengthWidth + p.data.length := rfl
  cases he : p.encoding with
  | direct =>
    rw [he] at hleast
    change 1 ≤ p.data.length at hleast
    omega
  | one | two | four =>
    rw [he] at hsize
    simp only [PushEncoding.lengthWidth] at hsize
    omega

namespace Operation
variable {o : Operation} {item : Bytes} (h : o.item? = some item)
include h

theorem length_item_lt : item.length < 2 ^ 32 := by
  cases o with
  | push p =>
    cases h
    exact PushEncoding.lt_of_accepts p.accepted
  | code op =>
    have hle := Push.length_le_of_single? (Push.single?_of_constant? h)
    omega

/-- Operations that push one item are told apart by their first bytes. -/
theorem eq_of_opcode {o' : Operation} (h' : o'.item? = some item) (hop : o.opcode = o'.opcode) : o = o' := by
  have hd := isDistinct_of_item? h
  have hd' := isDistinct_of_item? h'
  cases o with
  | push p =>
    cases o' with
    | push q =>
      have hdata : p.data = q.data := Option.some.inj (h.trans h'.symm)
      rw [PushData.eq_of_opcode hop hdata]
    | code op =>
      have hread := read_push p []
      rw [show p.opcode = op from hop, read_code hd'] at hread
      cases hread
  | code op =>
    cases o' with
    | push q =>
      have hread := read_push q []
      rw [← show op = q.opcode from hop, read_code hd] at hread
      cases hread
    | code op' => exact congrArg code hop

theorem eq_operation_iff : o = Push.operation item ↔ o.opcode = Push.opcode item := by
  have hlen := length_item_lt h
  rw [← Push.opcode_operation hlen]
  exact ⟨congrArg opcode, eq_of_opcode h (Push.item?_operation hlen)⟩

/-- Of the operations that push an item the shortest push is the smallest, and the only one of its size. -/
theorem size_operation : (Push.operation item).size ≤ o.size ∧
    (o.size = (Push.operation item).size → o = Push.operation item) := by
  rcases Push.operation_cases (length_item_lt h) with ⟨op, hsingle, ho⟩ | ⟨p, hsingle, ho, hdata, hencoding⟩
  · rw [ho]
    refine ⟨o.size_pos, fun hsize => ?_⟩
    cases o with
    | push q => exact absurd hsize (Nat.ne_of_gt q.one_lt_size)
    | code op' =>
      have hsingle' := Push.single?_of_constant? h
      rw [hsingle] at hsingle'
      cases hsingle'
      rfl
  · cases o with
    | push q =>
      cases h
      have hwidth := PushEncoding.lengthWidth_shortest_le q.accepted
      have hsize : p.size = 1 + (PushEncoding.shortest q.data.length).lengthWidth + q.data.length := by
        rw [← hencoding, ← hdata]
        rfl
      rw [ho]
      show p.size ≤ 1 + q.encoding.lengthWidth + q.data.length ∧
        (1 + q.encoding.lengthWidth + q.data.length = p.size → push q = push p)
      refine ⟨by omega, fun heq => congrArg push (PushData.eq_of_encoding ?_ hdata.symm)⟩
      rw [hencoding]
      exact PushEncoding.lengthWidth_inj (by omega)
    | code op =>
      rw [Push.single?_of_constant? h] at hsingle
      cases hsingle

end Operation

/-! ### Scripts -/

namespace Script

/-- The items that a script pushes, in the order of its operations. -/
def items (script : Bytes) : List Bytes := (listing script).ops.filterMap Operation.item?

theorem length_items_lt {script : Bytes} : ∀ item ∈ items script, item.length < 2 ^ 32 := by
  intro item hitem
  obtain ⟨o, -, ho⟩ := List.mem_filterMap.mp hitem
  exact Operation.length_item_lt ho

theorem isShortestPush_iff {o : Operation} :
    isShortestPush o = true ↔ ∃ item, o.item? = some item ∧ o = Push.operation item := by
  unfold isShortestPush
  cases ho : o.item? with
  | none => simp
  | some item =>
    simp only [beq_iff_eq, Option.some.injEq]
    rw [← Operation.eq_operation_iff ho]
    exact ⟨fun h => ⟨item, rfl, h⟩, fun ⟨_, hitem, h⟩ => hitem ▸ h⟩

theorem map_operation_filterMap {ops : List Operation} (h : ∀ o ∈ ops, isShortestPush o = true) :
    (ops.filterMap Operation.item?).map Push.operation = ops := by
  induction ops with
  | nil => rfl
  | cons o ops ih =>
    obtain ⟨item, hitem, ho⟩ := isShortestPush_iff.mp (h o List.mem_cons_self)
    rw [List.filterMap_cons_some hitem, List.map_cons, ih fun o ho => h o (List.mem_cons_of_mem _ ho), ← ho]

theorem isMinimalPushOnly_operations {items : List Bytes} (h : ∀ item ∈ items, item.length < 2 ^ 32) :
    isMinimalPushOnly (ofOps (items.map Push.operation)) = true := by
  obtain ⟨hops, hcut⟩ := listing_of_decode (decode_ofOps (isDistinct_operations h))
  have hall : (items.map Push.operation).all isShortestPush = true := by
    refine List.all_eq_true.mpr (List.forall_mem_map.mpr fun item hitem => ?_)
    exact isShortestPush_iff.mpr ⟨item, Push.item?_operation (h item hitem), rfl⟩
  simp only [isMinimalPushOnly, hops, hcut, hall, Option.isNone_none, Bool.and_true]

/-- A script of shortest pushes is the script of its items. -/
theorem isMinimalPushOnly_iff (script : Bytes) :
    isMinimalPushOnly script = true ↔ pushMany (items script) = .ok script := by
  rw [pushMany_eq length_items_lt, Except.ok.injEq]
  constructor
  · intro hminimal
    obtain ⟨hcut, hall⟩ := (Bool.and_eq_true _ _).mp hminimal
    have hwhole := ofOps_listing script
    rw [Listing.tail, Option.isNone_iff_eq_none.mp hcut] at hwhole
    rw [items, map_operation_filterMap (List.all_eq_true.mp hall)]
    exact (List.append_nil _).symm.trans hwhole
  · intro hscript
    rw [← hscript]
    exact isMinimalPushOnly_operations length_items_lt

/-- Whether a script is one operation that pushes an item. -/
def Pushes (script item : Bytes) : Prop := ∃ o : Operation, decode script = .ok [o] ∧ o.item? = some item

theorem length_of_pushes {script item : Bytes} (h : Pushes script item) : item.length < 2 ^ 32 := by
  obtain ⟨o, -, hitem⟩ := h
  exact Operation.length_item_lt hitem

theorem pushes_encode {item : Bytes} (h : item.length < 2 ^ 32) : Pushes (Push.encode item) item := by
  refine ⟨Push.operation item, ?_, Push.item?_operation h⟩
  rw [← Push.toBytes_operation h, ← ofOps_singleton]
  exact decode_ofOps (by simpa using Push.isDistinct_operation h)

theorem length_encode_le {script item : Bytes} (h : Pushes script item) :
    (Push.encode item).length ≤ script.length ∧ (script.length = (Push.encode item).length → script = Push.encode item) := by
  obtain ⟨o, hdecode, hitem⟩ := h
  obtain ⟨hscript, -⟩ := ofOps_of_decode hdecode
  obtain ⟨hle, heq⟩ := Operation.size_operation hitem
  rw [← hscript, ofOps_singleton, ← Push.toBytes_operation (Operation.length_item_lt hitem), Operation.length_toBytes,
    Operation.length_toBytes]
  exact ⟨hle, fun hsize => congrArg Operation.toBytes (heq hsize)⟩

/-- Shortest pushes are a normal form. The script of some items reads as one operation for each, with the opcode of its
    shortest push; a script is made of shortest pushes if and only if it is the script of the items that it pushes; and
    an item that can be pushed at all has one shortest script that pushes it, which is its shortest push. -/
theorem pushes_canonical :
    (∀ items : List Bytes, (∀ item ∈ items, item.length < 2 ^ 32) →
      ∃ script ops, pushMany items = .ok script ∧ decode script = .ok ops ∧
        ops.map (fun o => (o.opcode, o.item?)) = items.map (fun item => (Push.opcode item, some item)) ∧
        isMinimalPushOnly script = true) ∧
    (∀ script : Bytes, isMinimalPushOnly script = true ↔ pushMany (items script) = .ok script) ∧
    ∀ item : Bytes,
      (∃ push, Push.item item = .ok push ∧ Pushes push item ∧ ∀ script, Pushes script item →
        push.length ≤ script.length ∧ (script.length = push.length → script = push)) ∨
      (2 ^ 32 ≤ item.length ∧ ∀ script, ¬ Pushes script item) := by
  refine ⟨fun items h => ?_, isMinimalPushOnly_iff, fun item => ?_⟩
  · refine ⟨_, _, pushMany_eq h, decode_ofOps (isDistinct_operations h), ?_, isMinimalPushOnly_operations h⟩
    rw [List.map_map]
    refine List.map_congr_left fun item hitem => ?_
    have hlen := h item hitem
    rw [Function.comp_apply, Push.opcode_operation hlen, Push.item?_operation hlen]
  · by_cases h : item.length < 2 ^ 32
    · exact Or.inl ⟨Push.encode item, if_pos h, pushes_encode h, fun _ hpushes => length_encode_le hpushes⟩
    · exact Or.inr ⟨Nat.le_of_not_lt h, fun _ hpushes => h (length_of_pushes hpushes)⟩

/-- Items on both sides of each boundary between pushes, and a push of 5 that is two bytes longer than the shortest. -/
theorem pushes_canonical_boundaries :
    (∃ script ops, pushMany [[], [0x10], [0x11], [0x80], [0x81], List.replicate 75 7, List.replicate 76 7,
        List.replicate 255 7, List.replicate 256 7] = .ok script ∧ decode script = .ok ops ∧
      ops.map (fun o => (o.opcode, o.item?)) = [(0x00, some []), (0x60, some [0x10]), (0x01, some [0x11]),
        (0x01, some [0x80]), (0x4f, some [0x81]), (0x4b, some (List.replicate 75 7)), (0x4c, some (List.replicate 76 7)),
        (0x4c, some (List.replicate 255 7)), (0x4d, some (List.replicate 256 7))] ∧
      isMinimalPushOnly script = true) ∧
    (items [0x4c, 0x01, 0x05] = [[0x05]] ∧ isMinimalPushOnly [0x4c, 0x01, 0x05] ≠ true) ∧
    ∃ push, Push.item [0x05] = .ok push ∧ push.length < [0x4c, 0x01, 0x05].length := by
  refine ⟨?_, ⟨rfl, fun hminimal => ?_⟩, ?_⟩
  · have hlen : ∀ item ∈ [[], [0x10], [0x11], [0x80], [0x81], List.replicate 75 7, List.replicate 76 7,
        List.replicate 255 7, List.replicate 256 (7 : UInt8)], item.length < 2 ^ 32 := by
      simp only [List.forall_mem_cons, List.length_replicate, List.length_cons, List.length_nil]
      exact ⟨by decide, by decide, by decide, by decide, by decide, by decide, by decide, by decide, by decide, nofun⟩
    obtain ⟨script, ops, hscript, hdecode, hops, hminimal⟩ := pushes_canonical.1 _ hlen
    refine ⟨script, ops, hscript, hdecode, hops.trans ?_, hminimal⟩
    simp only [List.map_cons, List.map_nil, Push.opcode, List.length_replicate]
    rfl
  · cases pushes_canonical.2.1 _ |>.mp hminimal
  · have hpushes : Pushes [0x4c, 0x01, 0x05] [0x05] := ⟨.push ⟨[0x05], .one, by decide⟩, rfl, rfl⟩
    obtain ⟨push, hpush, -, hleast⟩ | ⟨-, hnone⟩ := pushes_canonical.2.2 [0x05]
    · obtain ⟨hle, heq⟩ := hleast _ hpushes
      refine ⟨push, hpush, Nat.lt_of_le_of_ne hle fun hlen => ?_⟩
      rw [← heq hlen.symm] at hpush
      cases hpush
    · exact absurd hpushes (hnone _)

end Script

end SpendScript
