import SpendScript.Proofs.Commitments

/-! # Signature hashes in place

The hash that is signed for an input was first computed on the transaction itself: its scripts, sequence numbers,
outputs and inputs are changed one after another until what is left is what is signed (`Tx.inPlaceHash`). The signing copy
is made at once instead, and gives the same hash for every transaction, index, script code and type
(`Tx.signatureHash_eq_inPlaceHash`). -/

namespace SpendScript.Tx

/-! ### Changes in place -/

/-- Changes the inputs one after another, each where it stands. -/
def sweepInputs (change : Nat → TxInput → TxInput) (tx : Tx) : Tx :=
  (List.range tx.inputs.length).foldl (fun tx n => { tx with inputs := tx.inputs.modify n (change n) }) tx

/-- Sets the sequence numbers of all inputs but one to zero. -/
def releaseSequences (i : Nat) (tx : Tx) : Tx :=
  tx.sweepInputs fun n a => if n ≠ i then { a with sequence := 0 } else a

/-- Empties the scripts of all inputs, and then sets that of one. -/
def exchangeScripts (i : Nat) (code : Bytes) (tx : Tx) : Tx :=
  let tx := tx.sweepInputs fun _ a => { a with unlock := [] }
  { tx with inputs := tx.inputs.modify i fun a => { a with unlock := code } }

/-- Hashes a transaction with the type. With the top bit of the type only one input is kept. -/
def hashWritten (i : Nat) (type : UInt8) (tx : Tx) : Except Fault Bytes := do
  let mut tx := tx
  if type &&& 0x80 ≠ 0 then
    let signed ← elementAt tx.inputs i
    tx := { tx with inputs := [signed] }
  return Digest.doubleSha256 ((← tx.toBytes) ++ (← Wire.Word.uint32.write type.toNat))

/-- The hash that is signed for an input, computed by changing the transaction. The low five bits of the type tell what
    becomes of the outputs. -/
def inPlaceHash (tx : Tx) (i : Nat) (code : Bytes) (type : UInt8) : Except Fault Bytes := do
  if tx.inputs.length ≤ i then return missingHash
  let mut tx := tx.exchangeScripts i (Script.delete [Opcode.opCodeSeparator] code)
  if type &&& 0x1f = 2 then
    tx := { tx with outputs := [] }
    tx := tx.releaseSequences i
  else if type &&& 0x1f = 3 then
    if tx.outputs.length ≤ i then return missingHash
    let output ← elementAt tx.outputs i
    tx := { tx with outputs := List.replicate i TxOutput.null ++ [output] }
    tx := tx.releaseSequences i
  tx.hashWritten i type

/-! ### Sweeps -/

/-- After some rounds the inputs at the positions passed are changed, and the others are not. -/
theorem foldl_range_modify (change : Nat → TxInput → TxInput) (tx : Tx) (k : Nat) :
    (List.range k).foldl (fun tx n => { tx with inputs := tx.inputs.modify n (change n) }) tx =
      { tx with inputs := tx.inputs.mapIdx fun n a => if n < k then change n a else a } := by
  induction k with
  | zero =>
    have hnone : (tx.inputs.mapIdx fun n a => if n < 0 then change n a else a) = tx.inputs := by
      apply List.ext_getElem?
      simp
    rw [hnone]
    rfl
  | succ k ih =>
    rw [List.range_succ, List.foldl_append, ih]
    simp only [List.foldl_cons, List.foldl_nil, Tx.mk.injEq, true_and, and_true]
    apply List.ext_getElem?
    intro n
    rw [List.getElem?_modify, List.getElem?_mapIdx, List.getElem?_mapIdx]
    cases tx.inputs[n]? with
    | none => simp
    | some a =>
      rcases Nat.lt_trichotomy n k with hn | rfl | hn
      · simp [hn, Nat.lt_succ_of_lt hn, Nat.ne_of_gt hn]
      · simp
      · simp [Nat.lt_asymm hn, Nat.ne_of_lt hn, Nat.not_lt.mpr (Nat.succ_le_of_lt hn)]

theorem sweepInputs_eq (change : Nat → TxInput → TxInput) (tx : Tx) :
    tx.sweepInputs change = { tx with inputs := tx.inputs.mapIdx change } := by
  have hall : (tx.inputs.mapIdx fun n a => if n < tx.inputs.length then change n a else a) = tx.inputs.mapIdx change := by
    apply List.ext_getElem?
    intro n
    rw [List.getElem?_mapIdx, List.getElem?_mapIdx]
    cases hn : tx.inputs[n]? with
    | none => rfl
    | some a =>
      obtain ⟨hlt, -⟩ := List.getElem?_eq_some_iff.mp hn
      simp [hlt]
  rw [sweepInputs, foldl_range_modify, hall]

theorem exchangeScripts_eq (i : Nat) (code : Bytes) (tx : Tx) :
    tx.exchangeScripts i code = { tx with inputs := tx.inputs.mapIdx (copyInput false i code) } := by
  simp only [exchangeScripts, sweepInputs_eq, Tx.mk.injEq, true_and, and_true]
  apply List.ext_getElem?
  intro n
  rw [List.getElem?_modify, List.getElem?_mapIdx, List.getElem?_mapIdx]
  cases tx.inputs[n]? with
  | none => simp
  | some a =>
    by_cases hn : n = i
    · simp [copyInput, hn]
    · simp [copyInput, blankInput, hn, Ne.symm hn]

theorem releaseSequences_copies (version locktime : Int) (inputs : List TxInput) (outputs : List TxOutput) (i : Nat)
    (code : Bytes) : releaseSequences i ⟨version, inputs.mapIdx (copyInput false i code), outputs, locktime⟩ =
      ⟨version, inputs.mapIdx (copyInput true i code), outputs, locktime⟩ := by
  simp only [releaseSequences, sweepInputs_eq, List.mapIdx_mapIdx, Tx.mk.injEq, true_and, and_true]
  congr 1
  funext n a
  by_cases hn : n = i
  · simp [copyInput, hn]
  · simp [copyInput, blankInput, hn]

/-! ### Hashes -/

section
variable {tx : Tx} {i : Nat} {code : Bytes} {h : SigHash}

theorem write_value (h : SigHash) : Wire.Word.uint32.write h.value.toNat = .ok h.bytes32 :=
  Wire.Word.write_natCast rfl (Nat.lt_trans h.value.toNat_lt (by decide))

/-- What is hashed of a transaction, as far as it can be written. -/
def signedBytes (tx : Tx) (h : SigHash) : Except Fault Bytes := tx.toBytes.map (· ++ h.bytes32)

theorem preimage_of_copies {inputs : List TxInput} {outputs : List TxOutput}
    (hin : signingInputs tx i (Script.withoutSeparators code) h = .ok inputs) (hout : signingOutputs tx i h = .ok outputs) :
    preimage tx i code h = signedBytes { tx with inputs := inputs, outputs := outputs } h := by
  unfold preimage signingCopy signedBytes
  rw [hin, hout]
  simp only [bind, Except.bind, pure, Except.pure]
  cases toBytes { tx with inputs := inputs, outputs := outputs } <;> rfl

theorem hashWritten_all (hanyone : h.anyoneCanPay = false) :
    hashWritten i h.value tx = (signedBytes tx h).map Digest.doubleSha256 := by
  have hbit : ¬h.value &&& 0x80 ≠ 0 := fun hbit => Bool.false_ne_true (hanyone.symm.trans (bne_iff_ne.mpr hbit))
  unfold hashWritten signedBytes
  rw [if_neg hbit, write_value]
  simp only [bind, Except.bind, pure, Except.pure]
  cases tx.toBytes <;> rfl

theorem hashWritten_anyone (hanyone : h.anyoneCanPay = true) {a : TxInput} (ha : tx.inputs[i]? = some a) :
    hashWritten i h.value tx = (signedBytes { tx with inputs := [a] } h).map Digest.doubleSha256 := by
  have hbit : h.value &&& 0x80 ≠ 0 := bne_iff_ne.mp hanyone
  unfold hashWritten signedBytes
  rw [if_pos hbit, elementAt_of_getElem? ha, write_value]
  simp only [bind, Except.bind, pure, Except.pure]
  cases toBytes { tx with inputs := [a] } <;> rfl

/-- Once its scripts, sequence numbers and outputs are those of the signing copy, a transaction is hashed as the copy
    is. -/
theorem hashWritten_copies (hi : i < tx.inputs.length) {outputs : List TxOutput}
    (hout : signingOutputs tx i h = .ok outputs) :
    hashWritten i h.value { tx with
      inputs := tx.inputs.mapIdx (copyInput h.blanksSequences i (Script.withoutSeparators code)), outputs := outputs } =
      (preimage tx i code h).map Digest.doubleSha256 := by
  cases hanyone : h.anyoneCanPay with
  | true =>
    have hsigned := List.getElem?_eq_getElem hi
    have hcopy : (tx.inputs.mapIdx (copyInput h.blanksSequences i (Script.withoutSeparators code)))[i]? =
        some { tx.inputs[i] with unlock := Script.withoutSeparators code } := by
      rw [List.getElem?_mapIdx, hsigned]
      simp [copyInput]
    rw [hashWritten_anyone hanyone hcopy, preimage_of_copies (signingInputs_anyone hanyone hsigned) hout]
  | false => rw [hashWritten_all hanyone, preimage_of_copies (signingInputs_all hanyone) hout]

/-! ### The algorithm by kinds -/

section
variable {type : UInt8} (hi : i < tx.inputs.length)
include hi

theorem inPlaceHash_none (hbits : type &&& 0x1f = 2) : inPlaceHash tx i code type = signatureHash tx i code ⟨type⟩ := by
  have hkind : SigHash.baseKind ⟨type⟩ = .none := if_pos hbits
  have hblank : SigHash.blanksSequences ⟨type⟩ = true := by simp [SigHash.blanksSequences, hkind]
  rw [signatureHash_eq hi (by simp [hkind]), ← hashWritten_copies hi (signingOutputs_none hkind), hblank]
  unfold inPlaceHash
  rw [if_neg (Nat.not_le.mpr hi), if_pos hbits, exchangeScripts_eq]
  dsimp only
  rw [releaseSequences_copies]
  rfl

theorem inPlaceHash_single (hbits : type &&& 0x1f = 3) : inPlaceHash tx i code type = signatureHash tx i code ⟨type⟩ := by
  have hother : ¬type &&& 0x1f = 2 := by simp [hbits]
  have hkind : SigHash.baseKind ⟨type⟩ = .single := (if_neg hother).trans (if_pos hbits)
  have hblank : SigHash.blanksSequences ⟨type⟩ = true := by simp [SigHash.blanksSequences, hkind]
  unfold inPlaceHash
  rw [if_neg (Nat.not_le.mpr hi), if_neg hother, if_pos hbits, exchangeScripts_eq]
  dsimp only
  by_cases ho : tx.outputs.length ≤ i
  · rw [if_pos ho, signatureHash, if_neg (by omega), if_pos ⟨hkind, by omega⟩]
    rfl
  · have hout := List.getElem?_eq_getElem (Nat.not_le.mp ho)
    rw [if_neg ho, elementAt_of_getElem? hout, signatureHash_eq hi fun _ => Nat.not_le.mp ho]
    rw [← hashWritten_copies hi (signingOutputs_single hkind hout), hblank]
    simp only [bind, Except.bind]
    rw [releaseSequences_copies]
    rfl

theorem inPlaceHash_all (hnone : ¬type &&& 0x1f = 2) (hsingle : ¬type &&& 0x1f = 3) :
    inPlaceHash tx i code type = signatureHash tx i code ⟨type⟩ := by
  have hkind : SigHash.baseKind ⟨type⟩ = .all := (if_neg hnone).trans (if_neg hsingle)
  have hblank : SigHash.blanksSequences ⟨type⟩ = false := by simp [SigHash.blanksSequences, hkind]
  rw [signatureHash_eq hi (by simp [hkind]), ← hashWritten_copies hi (signingOutputs_all hkind), hblank]
  unfold inPlaceHash
  rw [if_neg (Nat.not_le.mpr hi), if_neg hnone, if_neg hsingle, exchangeScripts_eq]
  rfl

end

end

/-- The two ways to compute the hash that is signed for an input agree. -/
theorem signatureHash_eq_inPlaceHash (tx : Tx) (i : Nat) (code : Bytes) (type : UInt8) :
    signatureHash tx i code ⟨type⟩ = inPlaceHash tx i code type := by
  by_cases hi : tx.inputs.length ≤ i
  · rw [signatureHash, if_pos (by omega), inPlaceHash, if_pos hi]
    rfl
  · have hlt := Nat.not_le.mp hi
    by_cases hnone : type &&& 0x1f = 2
    · exact (inPlaceHash_none hlt hnone).symm
    · by_cases hsingle : type &&& 0x1f = 3
      · exact (inPlaceHash_single hlt hsingle).symm
      · exact (inPlaceHash_all hlt hnone hsingle).symm

end SpendScript.Tx
