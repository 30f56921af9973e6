import SpendScript.Script.Operation

/-! # Reading what was written

An operation that is written is read back, whatever follows it, unless it is an opcode that a push begins with
(`Operation.read_append`). A script of such operations is therefore read as those operations and then as what comes
after them (`Script.listing_ofOps`), and every script that reads to its end is one (`Script.decode_exact`). -/

namespace SpendScript

namespace Operation

/-- Whether an operation is told by its first byte: a push, or an opcode that no push begins with. -/
def isDistinct : Operation → Bool
  | push _ => true
  | code op => op = 0 ∨ 0x4f ≤ op

/-- The bytes of an operation after the first. -/
def operand : Operation → Bytes
  | push p => Bytes.ofNatLE p.encoding.lengthWidth p.data.length ++ p.data
  | code _ => []

theorem toBytes_eq (o : Operation) : o.toBytes = o.opcode :: o.operand := by
  cases o <;> rfl

theorem length_operand (o : Operation) : o.operand.length = o.size - 1 := by
  have h := o.length_toBytes
  rw [toBytes_eq, List.length_cons] at h
  omega

theorem readData_append (p : PushData) {size : Nat} {h : p.encoding.Accepts size} {rest bs : Bytes}
    (hsize : size = p.data.length) (hrest : rest = p.data ++ bs) : readData p.encoding size h rest = .ok (.push p) := by
  subst hsize hrest
  have htake : (p.data ++ bs).take p.data.length = p.data := List.take_left
  unfold readData
  simp only [htake, dif_pos]

theorem readLong_append (p : PushData) (op : Opcode) (long : p.encoding ≠ .direct) (bs : Bytes) :
    readLong op p.encoding long (operand (.push p) ++ bs) = .ok (.push p) := by
  have hfield : (operand (.push p) ++ bs).take p.encoding.lengthWidth =
      Bytes.ofNatLE p.encoding.lengthWidth p.data.length := by
    rw [operand, List.append_assoc]
    exact List.take_left' (Bytes.length_ofNatLE _ _)
  have hdata : (operand (.push p) ++ bs).drop p.encoding.lengthWidth = p.data ++ bs := by
    rw [operand, List.append_assoc]
    exact List.drop_left' (Bytes.length_ofNatLE _ _)
  have hlt : p.data.length < 256 ^ p.encoding.lengthWidth := by
    have hle := p.accepted.2
    have hpos : 0 < 256 ^ p.encoding.lengthWidth := Nat.pow_pos (by decide)
    cases he : p.encoding with
    | direct => exact absurd he long
    | one | two | four =>
      rw [he] at hle hpos
      exact Nat.lt_of_le_pred hpos hle
  unfold readLong
  rw [dif_pos (by rw [hfield, Bytes.length_ofNatLE])]
  exact readData_append p (by rw [hfield, Bytes.toNatLE_ofNatLE _ _ hlt]) hdata

theorem read_pushData1 (rest : Bytes) :
    read Opcode.pushData1 rest = readLong Opcode.pushData1 .one (by decide) rest := by
  rw [read, dif_neg (by decide), if_pos rfl]

theorem read_pushData2 (rest : Bytes) :
    read Opcode.pushData2 rest = readLong Opcode.pushData2 .two (by decide) rest := by
  rw [read, dif_neg (by decide), if_neg (by decide), if_pos rfl]

theorem read_pushData4 (rest : Bytes) :
    read Opcode.pushData4 rest = readLong Opcode.pushData4 .four (by decide) rest := by
  rw [read, dif_neg (by decide), if_neg (by decide), if_neg (by decide), if_pos rfl]

theorem read_push (p : PushData) (bs : Bytes) : read p.opcode (operand (.push p) ++ bs) = .ok (.push p) := by
  obtain ⟨data, encoding, accepted⟩ := p
  cases encoding with
  | direct =>
    have hle : data.length ≤ 75 := accepted.2
    have hop : (PushData.opcode ⟨data, .direct, accepted⟩).toNat = data.length := by
      have hmod : (UInt8.ofNat data.length).toNat = data.length % 2 ^ 8 := UInt8.toNat_ofNat'
      exact hmod.trans (Nat.mod_eq_of_lt (Nat.lt_of_le_of_lt hle (by decide)))
    have hacc : PushEncoding.direct.Accepts (PushData.opcode ⟨data, .direct, accepted⟩).toNat := by
      rw [hop]
      exact accepted
    exact (dif_pos hacc).trans (readData_append ⟨data, .direct, accepted⟩ hop rfl)
  | one => exact (read_pushData1 _).trans (readLong_append ⟨data, .one, accepted⟩ _ _ bs)
  | two => exact (read_pushData2 _).trans (readLong_append ⟨data, .two, accepted⟩ _ _ bs)
  | four => exact (read_pushData4 _).trans (readLong_append ⟨data, .four, accepted⟩ _ _ bs)

theorem read_code {op : Opcode} (h : (code op).isDistinct = true) (bs : Bytes) : read op bs = .ok (.code op) := by
  have hop : op.toNat = 0 ∨ 0x4f ≤ op.toNat := by
    rcases of_decide_eq_true h with h | h
    · exact .inl (congrArg UInt8.toNat h)
    · exact .inr (UInt8.le_iff_toNat_le.mp h)
  have hdirect : ¬PushEncoding.direct.Accepts op.toNat := by
    rintro ⟨hlow, hhigh⟩
    change 1 ≤ op.toNat at hlow
    change op.toNat ≤ 75 at hhigh
    omega
  have hne : ∀ c : Opcode, c.toNat ≠ 0 → c.toNat < 0x4f → op ≠ c := by
    rintro c hpos hlt rfl
    omega
  unfold read
  rw [dif_neg hdirect, if_neg (hne _ (by decide) (by decide)), if_neg (hne _ (by decide) (by decide)),
    if_neg (hne _ (by decide) (by decide))]

/-- An operation is read back, whatever follows it. -/
theorem read_append {o : Operation} (h : o.isDistinct = true) (bs : Bytes) :
    read o.opcode (o.operand ++ bs) = .ok o := by
  cases o with
  | push p => exact read_push p bs
  | code op => exact read_code h bs

end Operation

namespace Script
open Operation

theorem listing_append {o : Operation} (h : o.isDistinct = true) (bs : Bytes) :
    listing (o.toBytes ++ bs) = ⟨o :: (listing bs).ops, (listing bs).cut⟩ := by
  have hrest : scan (o.operand ++ bs) (o.size - 1) = listing bs := by
    rw [scan_skip, ← o.length_operand, List.drop_left]
    rfl
  rw [toBytes_eq, List.cons_append, listing, scan, read_append h]
  dsimp only
  rw [hrest]

/-- A script that begins with written operations is read as those and then as what follows them. -/
theorem listing_ofOps {ops : List Operation} (h : ∀ o ∈ ops, o.isDistinct = true) (bs : Bytes) :
    listing (ofOps ops ++ bs) = ⟨ops ++ (listing bs).ops, (listing bs).cut⟩ := by
  induction ops with
  | nil => rfl
  | cons o ops ih =>
    have hsplit : ofOps (o :: ops) ++ bs = o.toBytes ++ (ofOps ops ++ bs) := List.append_assoc _ _ _
    rw [hsplit, listing_append (h o List.mem_cons_self), ih fun o ho => h o (List.mem_cons_of_mem _ ho)]
    rfl

theorem listing_of_decode {script : Bytes} {ops : List Operation} (h : decode script = .ok ops) :
    (listing script).ops = ops ∧ (listing script).cut = none := by
  unfold decode Listing.complete at h
  cases hc : (listing script).cut with
  | none =>
    rw [hc] at h
    exact ⟨Except.ok.inj h, rfl⟩
  | some cut =>
    rw [hc] at h
    cases h

/-! ### What is read -/

theorem isDistinct_read {op : Opcode} {rest : Bytes} {o : Operation} (h : Operation.read op rest = .ok o) :
    o.isDistinct = true := by
  unfold Operation.read at h
  split at h
  · obtain ⟨p, rfl, -⟩ := readData_ok h
    rfl
  · rename_i hdirect
    split at h
    · obtain ⟨p, rfl, -⟩ := readLong_ok h
      rfl
    · rename_i hone
      split at h
      · obtain ⟨p, rfl, -⟩ := readLong_ok h
        rfl
      · rename_i htwo
        split at h
        · obtain ⟨p, rfl, -⟩ := readLong_ok h
          rfl
        · rename_i hfour
          cases h
          -- every byte that a push begins with has been ruled out
          have hrange : ¬(1 ≤ op.toNat ∧ op.toNat ≤ 75) := hdirect
          have hne : ∀ c : Opcode, op ≠ c → op.toNat ≠ c.toNat := fun c hc he => hc (UInt8.toNat_inj.mp he)
          have h1 : op.toNat ≠ 0x4c := hne Opcode.pushData1 hone
          have h2 : op.toNat ≠ 0x4d := hne Opcode.pushData2 htwo
          have h4 : op.toNat ≠ 0x4e := hne Opcode.pushData4 hfour
          refine decide_eq_true ?_
          rcases Nat.eq_zero_or_pos op.toNat with h0 | hpos
          · exact Or.inl (UInt8.toNat_inj.mp h0)
          · refine Or.inr (UInt8.le_iff_toNat_le.mpr ?_)
            show 0x4f ≤ op.toNat
            omega

theorem isDistinct_scan {bs : Bytes} {skip : Nat} : ∀ o ∈ (scan bs skip).ops, o.isDistinct = true := by
  induction bs generalizing skip with
  | nil => exact fun o ho => (nomatch ho)
  | cons b bs ih =>
    cases skip with
    | succ n => exact ih
    | zero =>
      unfold scan
      split
      · rename_i first hread
        intro o ho
        rcases List.mem_cons.mp ho with rfl | ho
        · exact isDistinct_read hread
        · exact ih o ho
      · exact fun o ho => (nomatch ho)

theorem ofOps_append (ops ops' : List Operation) : ofOps (ops ++ ops') = ofOps ops ++ ofOps ops' := List.flatMap_append

theorem ofOps_singleton (o : Operation) : ofOps [o] = o.toBytes := List.append_nil _

/-- A script reads to its end as the operations of which it is the writing. -/
theorem ofOps_of_decode {script : Bytes} {ops : List Operation} (h : decode script = .ok ops) :
    ofOps ops = script ∧ ∀ o ∈ ops, o.isDistinct = true := by
  obtain ⟨rfl, hcut⟩ := listing_of_decode h
  have hwhole := ofOps_listing script
  rw [Listing.tail, hcut] at hwhole
  exact ⟨(List.append_nil _).symm.trans hwhole, isDistinct_scan⟩

theorem decode_ofOps_append {ops : List Operation} (h : ∀ o ∈ ops, o.isDistinct = true) (rest : Bytes) :
    decode (ofOps ops ++ rest) = (decode rest).map (ops ++ ·) := by
  unfold decode Listing.complete
  rw [listing_ofOps h]
  cases (listing rest).cut <;> rfl

theorem decode_ofOps {ops : List Operation} (h : ∀ o ∈ ops, o.isDistinct = true) : decode (ofOps ops) = .ok ops := by
  have hread := decode_ofOps_append h []
  rw [List.append_nil] at hread
  exact hread.trans (congrArg Except.ok (List.append_nil ops))

theorem isDistinct_iff {ops : List Operation} : (∀ o ∈ ops, o.isDistinct = true) ↔
    ∀ op, Operation.code op ∈ ops → op = 0 ∨ 0x4f ≤ op := by
  constructor
  · exact fun h op hop => of_decide_eq_true (h _ hop)
  · intro h o ho
    cases o with
    | push p => rfl
    | code op => exact decide_eq_true (h op ho)

/-- Reading and writing scripts undo each other. A script is cut off in a push, or it is the writing of the operations
    that it reads as; operations are read back if none is an opcode that a push begins with; and a script that reads to
    its end is read independently of what follows it. -/
theorem decode_exact :
    (∀ script : Bytes, (∃ cause, decode script = .error (.truncated cause)) ∨
      ∃ ops, decode script = .ok ops ∧ ofOps ops = script ∧ ∀ op, Operation.code op ∈ ops → op = 0 ∨ 0x4f ≤ op) ∧
    (∀ ops : List Operation, (∀ op, Operation.code op ∈ ops → op = 0 ∨ 0x4f ≤ op) → decode (ofOps ops) = .ok ops) ∧
    ∀ (script rest : Bytes) (ops : List Operation), decode script = .ok ops →
      decode (script ++ rest) = (decode rest).map (ops ++ ·) := by
  refine ⟨fun script => ?_, fun ops h => decode_ofOps (isDistinct_iff.mpr h), fun script rest ops h => ?_⟩
  · cases hc : (listing script).cut with
    | some cut => exact Or.inl ⟨cut.cause, by unfold decode Listing.complete; rw [hc]⟩
    | none =>
      have hdecode : decode script = .ok (listing script).ops := by
        unfold decode Listing.complete
        rw [hc]
      obtain ⟨hwhole, hdistinct⟩ := ofOps_of_decode hdecode
      exact Or.inr ⟨_, hdecode, hwhole, isDistinct_iff.mp hdistinct⟩
  · obtain ⟨rfl, hdistinct⟩ := ofOps_of_decode h
    exact decode_ofOps_append hdistinct rest

/-- An empty push in each long encoding, a direct push, `OP_0` and an opcode without a name are read back, and a push
    that is cut off after them is reported as it is alone. -/
theorem decode_exact_mixed :
    decode (ofOps [.push ⟨[], .one, by decide⟩, .push ⟨[], .two, by decide⟩, .push ⟨[], .four, by decide⟩,
      .push ⟨[7, 8], .direct, by decide⟩, .code 0, .code 0xff]) =
        .ok [.push ⟨[], .one, by decide⟩, .push ⟨[], .two, by decide⟩, .push ⟨[], .four, by decide⟩,
          .push ⟨[7, 8], .direct, by decide⟩, .code 0, .code 0xff] ∧
    decode ([0x4c, 0x00, 0x00, 0xff] ++ [0x4d, 0x02, 0x00, 0x09]) = .error (.truncated (.data 2 1)) := by
  refine ⟨decode_exact.2.1 _ fun op hop => ?_, ?_⟩
  · simp only [List.mem_cons, reduceCtorEq, Operation.code.injEq, List.not_mem_nil, false_or, or_false] at hop
    rcases hop with rfl | rfl <;> decide
  · exact decode_exact.2.2 [0x4c, 0x00, 0x00, 0xff] [0x4d, 0x02, 0x00, 0x09]
      [.push ⟨[], .one, by decide⟩, .code 0, .code 0xff] rfl

end Script

end SpendScript
