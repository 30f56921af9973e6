import SpendScript.Proofs.Outcome
import SpendScript.Transaction

/-! # The wire format of transactions

A transaction whose fields lie within their ranges is written without a fault (`Tx.OnWire.exists_toBytes`), and its bytes
tell it from every other one, whatever follows them (`Tx.toBytes_unambiguous`). -/

namespace SpendScript

namespace Wire

/-! ### Telling values by their bytes -/

/-- Values with a property are told by what is written of them, whatever follows it. -/
def Unambiguous {α : Type} (p : α → Prop) (write : α → Except Fault Bytes) : Prop :=
  ∀ ⦃a b : α⦄ ⦃u v x y : Bytes⦄, p a → p b → write a = .ok u → write b = .ok v → u ++ x = v ++ y → a = b ∧ x = y

theorem unambiguous_of_read {α : Type} {p : α → Prop} {write : α → Except Fault Bytes} (read : Reader α)
    (h : ∀ a u rest, write a = .ok u → read (u ++ rest) = .ok a rest) : Unambiguous p write := by
  intro a b u v x y _ _ hu hv heq
  have hread := h a u x hu
  rw [heq, h b v y hv] at hread
  cases hread
  exact ⟨rfl, rfl⟩

namespace Word
variable {w : Word}

theorem exists_write {n : Int} (h : w.Fits n) : ∃ bytes, w.write n = .ok bytes := ⟨_, if_pos h⟩

theorem write_natCast {n : Nat} (hsigned : w.signed = false) (h : n < w.modulus) :
    w.write n = .ok (Bytes.ofNatLE w.width n) := by
  have hfits : w.Fits n := by
    unfold Fits
    rw [hsigned]
    exact ⟨Int.natCast_nonneg n, Int.ofNat_lt.mpr h⟩
  have hmod : ((n : Int) % w.modulus).toNat = n := by
    rw [← Int.natCast_emod, Int.toNat_natCast, Nat.mod_eq_of_lt h]
  unfold write
  rw [if_pos hfits, hmod]

theorem unambiguous (h : w.width ≤ maxRead) : Unambiguous (fun _ => True) w.write :=
  unambiguous_of_read w.read fun _ _ rest hwrite => read_append h hwrite rest

end Word

namespace CompactSize

theorem write_eq_ok {n : Nat} {bytes : Bytes} : write n = .ok bytes ↔ n < 2 ^ 64 ∧ encode n = bytes := by
  unfold write
  by_cases h : (0 : Int) ≤ n ∧ (n : Int) < 2 ^ 64
  · rw [if_pos h, Except.ok.injEq, Int.toNat_natCast]
    exact ⟨fun hbytes => ⟨by omega, hbytes⟩, fun hbytes => hbytes.2⟩
  · rw [if_neg h]
    exact ⟨fun hbytes => (nomatch hbytes), fun hbytes => absurd ⟨Int.natCast_nonneg n, by omega⟩ h⟩

theorem byte_read (b : UInt8) (rest : Bytes) : Word.byte.read (b :: rest) = .ok (b.toNat : Int) rest := by
  have hwrite : Word.byte.write (b.toNat : Int) = .ok [b] := by
    rw [Word.write_natCast rfl b.toNat_lt]
    simp [Word.byte, Bytes.ofNatLE]
  exact Word.read_append (by decide) hwrite rest

theorem read_narrow {b : UInt8} (h : wideForm? b.toNat = none) (rest : Bytes) : read (b :: rest) = .ok b.toNat rest := by
  unfold read
  simp only [bind, EStateM.bind, byte_read, h]
  rfl

theorem read_wide {b : UInt8} {w : Word} {n : Int} {stream rest : Bytes} (h : wideForm? b.toNat = some w)
    (hread : w.read stream = .ok n rest) : read (b :: stream) = .ok n.toNat rest := by
  unfold read
  simp only [bind, EStateM.bind, byte_read, h, hread]
  rfl

/-- A number is read back from its shortest form. -/
theorem read_append {n : Nat} {bytes : Bytes} (h : write n = .ok bytes) (rest : Bytes) :
    read (bytes ++ rest) = .ok n rest := by
  obtain ⟨hn, rfl⟩ := write_eq_ok.mp h
  have hread : ∀ w : Word, w.signed = false → w.width ≤ maxRead → n < w.modulus →
      w.read (Bytes.ofNatLE w.width n ++ rest) = .ok (n : Int) rest :=
    fun w hsigned hwidth hlt => Word.read_append hwidth (Word.write_natCast hsigned hlt) rest
  unfold encode
  split
  · rename_i hlt
    have hbyte : (UInt8.ofNat n).toNat = n := by
      rw [UInt8.toNat_ofNat']
      exact Nat.mod_eq_of_lt (Nat.lt_trans hlt (by decide))
    have hnone : wideForm? (UInt8.ofNat n).toNat = none := by
      rw [hbyte]
      unfold wideForm?
      rw [if_neg (by omega), if_neg (by omega), if_neg (by omega)]
    have hnarrow := read_narrow hnone rest
    rwa [hbyte] at hnarrow
  · split
    · exact read_wide rfl (hread .uint16 rfl (by decide) ‹_›)
    · split
      · exact read_wide rfl (hread .uint32 rfl (by decide) ‹_›)
      · exact read_wide rfl (hread .uint64 rfl (by decide) hn)

theorem unambiguous : Unambiguous (fun _ => True) fun n : Nat => write n :=
  unambiguous_of_read read fun _ _ rest hwrite => read_append hwrite rest

/-! ### Byte strings and lists -/

theorem writeBytes_eq_ok {data bytes : Bytes} :
    writeBytes data = .ok bytes ↔ ∃ size, write data.length = .ok size ∧ size ++ data = bytes := by
  simp only [writeBytes, bind_eq_ok, pure, Except.pure, Except.ok.injEq]

theorem writeBytes_unambiguous : Unambiguous (fun _ => True) writeBytes := by
  intro a b u v x y _ _ hu hv heq
  obtain ⟨sizeA, hsizeA, rfl⟩ := writeBytes_eq_ok.mp hu
  obtain ⟨sizeB, hsizeB, rfl⟩ := writeBytes_eq_ok.mp hv
  rw [List.append_assoc, List.append_assoc] at heq
  obtain ⟨hlen, hrest⟩ := unambiguous trivial trivial hsizeA hsizeB heq
  exact List.append_inj hrest hlen

section
variable {α : Type} {one : α → Except Fault Bytes} {p : α → Prop}

theorem writeList_eq_ok {items : List α} {bytes : Bytes} : writeList one items = .ok bytes ↔
    ∃ count, write items.length = .ok count ∧ ∃ parts, items.mapM one = .ok parts ∧ count ++ parts.flatten = bytes := by
  simp only [writeList, bind_eq_ok, pure, Except.pure, Except.ok.injEq]

theorem mapM_unambiguous (hone : Unambiguous p one) {as bs : List α} {us vs : List Bytes} {x y : Bytes}
    (ha : ∀ a ∈ as, p a) (hb : ∀ b ∈ bs, p b) (hlen : as.length = bs.length) (hu : as.mapM one = .ok us)
    (hv : bs.mapM one = .ok vs) (heq : us.flatten ++ x = vs.flatten ++ y) : as = bs ∧ x = y := by
  induction as generalizing bs us vs with
  | nil =>
    cases bs with
    | nil =>
      cases hu
      cases hv
      exact ⟨rfl, heq⟩
    | cons b bs => cases hlen
  | cons a as ih =>
    cases bs with
    | nil => cases hlen
    | cons b bs =>
      obtain ⟨u, hone_a, us, hus, rfl⟩ := mapM_cons_eq_ok.mp hu
      obtain ⟨v, hone_b, vs, hvs, rfl⟩ := mapM_cons_eq_ok.mp hv
      rw [List.flatten_cons, List.flatten_cons, List.append_assoc, List.append_assoc] at heq
      obtain ⟨rfl, hrest⟩ := hone (ha a List.mem_cons_self) (hb b List.mem_cons_self) hone_a hone_b heq
      obtain ⟨rfl, hxy⟩ := ih (fun a h => ha a (List.mem_cons_of_mem _ h)) (fun b h => hb b (List.mem_cons_of_mem _ h))
        (Nat.succ.inj hlen) hus hvs hrest
      exact ⟨rfl, hxy⟩

theorem writeList_unambiguous (hone : Unambiguous p one) : Unambiguous (fun items => ∀ a ∈ items, p a) (writeList one) := by
  intro as bs u v x y ha hb hu hv heq
  obtain ⟨countA, hcountA, us, hus, rfl⟩ := writeList_eq_ok.mp hu
  obtain ⟨countB, hcountB, vs, hvs, rfl⟩ := writeList_eq_ok.mp hv
  rw [List.append_assoc, List.append_assoc] at heq
  obtain ⟨hlen, hrest⟩ := unambiguous trivial trivial hcountA hcountB heq
  exact mapM_unambiguous hone ha hb hlen hus hvs hrest

theorem exists_writeList {items : List α} (hlen : items.length < 2 ^ 63) (h : ∀ a ∈ items, ∃ bytes, one a = .ok bytes) :
    ∃ bytes, writeList one items = .ok bytes := by
  obtain ⟨parts, hparts⟩ := exists_mapM_eq_ok.mpr h
  exact ⟨_, writeList_eq_ok.mpr ⟨_, write_eq_ok.mpr ⟨by omega, rfl⟩, parts, hparts, rfl⟩⟩

end

theorem exists_writeBytes {data : Bytes} (h : data.length < 2 ^ 63) : ∃ bytes, writeBytes data = .ok bytes :=
  ⟨_, writeBytes_eq_ok.mpr ⟨_, write_eq_ok.mpr ⟨by omega, rfl⟩, rfl⟩⟩

end CompactSize

end Wire

open Wire

/-! ### Transactions -/

theorem TxInput.toBytes_eq_ok {i : TxInput} {bytes : Bytes} : i.toBytes = .ok bytes ↔
    ∃ prevIndex, Word.uint32.write i.prevIndex = .ok prevIndex ∧ ∃ unlock, CompactSize.writeBytes i.unlock = .ok unlock ∧
      ∃ sequence, Word.uint32.write i.sequence = .ok sequence ∧ i.prevHash ++ prevIndex ++ unlock ++ sequence = bytes := by
  simp only [toBytes, bind_eq_ok, pure, Except.pure, Except.ok.injEq]

/-- Inputs are told by their bytes, as the hashes that they begin with have the same length. -/
theorem TxInput.toBytes_unambiguous : Unambiguous (fun i : TxInput => i.prevHash.length = 32) toBytes := by
  rintro ⟨hashA, indexA, unlockA, sequenceA⟩ ⟨hashB, indexB, unlockB, sequenceB⟩ u v x y ha hb hu hv heq
  obtain ⟨_, hindexA, _, hunlockA, _, hsequenceA, rfl⟩ := toBytes_eq_ok.mp hu
  obtain ⟨_, hindexB, _, hunlockB, _, hsequenceB, rfl⟩ := toBytes_eq_ok.mp hv
  simp only [List.append_assoc] at heq
  obtain ⟨rfl, hrest⟩ := List.append_inj heq (ha.trans hb.symm)
  obtain ⟨rfl, hrest⟩ := Word.unambiguous (by decide) trivial trivial hindexA hindexB hrest
  obtain ⟨rfl, hrest⟩ := CompactSize.writeBytes_unambiguous trivial trivial hunlockA hunlockB hrest
  obtain ⟨rfl, hrest⟩ := Word.unambiguous (by decide) trivial trivial hsequenceA hsequenceB hrest
  exact ⟨rfl, hrest⟩

theorem TxOutput.toBytes_eq_ok {o : TxOutput} {bytes : Bytes} : o.toBytes = .ok bytes ↔
    ∃ value, Word.int64.write o.value = .ok value ∧ ∃ lock, CompactSize.writeBytes o.lock = .ok lock ∧
      value ++ lock = bytes := by
  simp only [toBytes, bind_eq_ok, pure, Except.pure, Except.ok.injEq]

theorem TxOutput.toBytes_unambiguous : Unambiguous (fun _ => True) toBytes := by
  rintro ⟨valueA, lockA⟩ ⟨valueB, lockB⟩ u v x y _ _ hu hv heq
  obtain ⟨_, hvalueA, _, hlockA, rfl⟩ := toBytes_eq_ok.mp hu
  obtain ⟨_, hvalueB, _, hlockB, rfl⟩ := toBytes_eq_ok.mp hv
  simp only [List.append_assoc] at heq
  obtain ⟨rfl, hrest⟩ := Word.unambiguous (by decide) trivial trivial hvalueA hvalueB heq
  obtain ⟨rfl, hrest⟩ := CompactSize.writeBytes_unambiguous trivial trivial hlockA hlockB hrest
  exact ⟨rfl, hrest⟩

theorem Tx.toBytes_eq_ok {tx : Tx} {bytes : Bytes} : tx.toBytes = .ok bytes ↔
    ∃ version, Word.int32.write tx.version = .ok version ∧
      ∃ inputs, CompactSize.writeList TxInput.toBytes tx.inputs = .ok inputs ∧
        ∃ outputs, CompactSize.writeList TxOutput.toBytes tx.outputs = .ok outputs ∧
          ∃ locktime, Word.uint32.write tx.locktime = .ok locktime ∧ version ++ inputs ++ outputs ++ locktime = bytes := by
  simp only [toBytes, bind_eq_ok, pure, Except.pure, Except.ok.injEq]

theorem Tx.toBytes_unambiguous : Unambiguous (fun tx : Tx => ∀ i ∈ tx.inputs, i.prevHash.length = 32) toBytes := by
  rintro ⟨versionA, inputsA, outputsA, locktimeA⟩ ⟨versionB, inputsB, outputsB, locktimeB⟩ u v x y ha hb hu hv heq
  obtain ⟨_, hversionA, _, hinputsA, _, houtputsA, _, hlocktimeA, rfl⟩ := toBytes_eq_ok.mp hu
  obtain ⟨_, hversionB, _, hinputsB, _, houtputsB, _, hlocktimeB, rfl⟩ := toBytes_eq_ok.mp hv
  simp only [List.append_assoc] at heq
  obtain ⟨rfl, hrest⟩ := Word.unambiguous (by decide) trivial trivial hversionA hversionB heq
  obtain ⟨rfl, hrest⟩ := CompactSize.writeList_unambiguous TxInput.toBytes_unambiguous ha hb hinputsA hinputsB hrest
  obtain ⟨rfl, hrest⟩ := CompactSize.writeList_unambiguous TxOutput.toBytes_unambiguous (fun _ _ => trivial)
    (fun _ _ => trivial) houtputsA houtputsB hrest
  obtain ⟨rfl, hrest⟩ := Word.unambiguous (by decide) trivial trivial hlocktimeA hlocktimeB hrest
  exact ⟨rfl, hrest⟩

/-! ### Fields within their ranges -/

/-- The fields of an input that the wire format has room for. -/
structure TxInput.OnWire (a : TxInput) : Prop where
  prevHash : a.prevHash.length = 32
  prevIndex : Word.uint32.Fits a.prevIndex
  unlock : a.unlock.length < 2 ^ 63
  sequence : Word.uint32.Fits a.sequence

structure TxOutput.OnWire (o : TxOutput) : Prop where
  value : Word.int64.Fits o.value
  lock : o.lock.length < 2 ^ 63

structure Tx.OnWire (tx : Tx) : Prop where
  version : Word.int32.Fits tx.version
  inputs : ∀ a ∈ tx.inputs, a.OnWire
  inputCount : tx.inputs.length < 2 ^ 63
  outputs : ∀ o ∈ tx.outputs, o.OnWire
  outputCount : tx.outputs.length < 2 ^ 63
  locktime : Word.uint32.Fits tx.locktime

theorem TxInput.OnWire.exists_toBytes {a : TxInput} (h : a.OnWire) : ∃ bytes, a.toBytes = .ok bytes := by
  obtain ⟨prevIndex, hprevIndex⟩ := Word.exists_write h.prevIndex
  obtain ⟨unlock, hunlock⟩ := CompactSize.exists_writeBytes h.unlock
  obtain ⟨sequence, hsequence⟩ := Word.exists_write h.sequence
  exact ⟨_, toBytes_eq_ok.mpr ⟨_, hprevIndex, _, hunlock, _, hsequence, rfl⟩⟩

theorem TxOutput.OnWire.exists_toBytes {o : TxOutput} (h : o.OnWire) : ∃ bytes, o.toBytes = .ok bytes := by
  obtain ⟨value, hvalue⟩ := Word.exists_write h.value
  obtain ⟨lock, hlock⟩ := CompactSize.exists_writeBytes h.lock
  exact ⟨_, toBytes_eq_ok.mpr ⟨_, hvalue, _, hlock, rfl⟩⟩

theorem Tx.OnWire.exists_toBytes {tx : Tx} (h : tx.OnWire) : ∃ bytes, tx.toBytes = .ok bytes := by
  obtain ⟨version, hversion⟩ := Word.exists_write h.version
  obtain ⟨inputs, hinputs⟩ := CompactSize.exists_writeList h.inputCount fun a ha => (h.inputs a ha).exists_toBytes
  obtain ⟨outputs, houtputs⟩ := CompactSize.exists_writeList h.outputCount fun o ho => (h.outputs o ho).exists_toBytes
  obtain ⟨locktime, hlocktime⟩ := Word.exists_write h.locktime
  exact ⟨_, toBytes_eq_ok.mpr ⟨_, hversion, _, hinputs, _, houtputs, _, hlocktime, rfl⟩⟩

end SpendScript
