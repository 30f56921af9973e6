import SpendScript.Proofs.Deletion
import SpendScript.Proofs.WireFormat
import SpendScript.Transaction.SignatureHash

/-! # What signatures commit to

The type of a signature tells which parts of a transaction it commits to (`Tx.SignedAlike`). Parts that it does not
commit to cannot change what is signed (`Tx.signatureHash_eq_of_signedAlike`), and two transactions for which the same is
signed agree in all parts that it commits to (`Tx.preimage_commits`). -/

namespace SpendScript

/-- The output that an input spends. -/
def TxInput.outpoint (a : TxInput) : Bytes × Int := (a.prevHash, a.prevIndex)

/-- What a signature of an input commits to of it, whatever its type. -/
def TxInput.signedPart (a : TxInput) : (Bytes × Int) × Int := (a.outpoint, a.sequence)

theorem TxInput.eq_iff {a b : TxInput} :
    a = b ↔ a.outpoint = b.outpoint ∧ a.unlock = b.unlock ∧ a.sequence = b.sequence := by
  constructor
  · rintro rfl
    exact ⟨rfl, rfl, rfl⟩
  · cases a
    cases b
    rintro ⟨houtpoint, rfl, rfl⟩
    cases houtpoint
    rfl

theorem map_eq_map_of {α β γ : Type} {x y : Option α} {f f' : α → β} {g g' : α → γ} (h : x.map f = y.map f')
    (hg : ∀ a b, x = some a → y = some b → f a = f' b → g a = g' b) : x.map g = y.map g' := by
  cases x with
  | none =>
    cases y with
    | none => rfl
    | some b => cases h
  | some a =>
    cases y with
    | none => cases h
    | some b => exact congrArg some (hg a b rfl rfl (Option.some.inj h))

theorem map_eq_map_iff {α β : Type} {f : α → β} {l l' : List α} :
    l.map f = l'.map f ↔ ∀ n : Nat, l[n]?.map f = l'[n]?.map f := by
  simp only [← List.getElem?_map]
  exact ⟨fun h n => congrArg (·[n]?) h, List.ext_getElem?⟩

namespace SigHash

theorem baseKind_cases (h : SigHash) : h.baseKind = .all ∨ h.baseKind = .none ∨ h.baseKind = .single := by
  unfold baseKind
  split
  · exact Or.inr (Or.inl rfl)
  · split
    · exact Or.inr (Or.inr rfl)
    · exact Or.inl rfl

/-- Whether the sequence numbers of the inputs that are not signed are blanked. -/
def blanksSequences (h : SigHash) : Bool := h.baseKind == .none || h.baseKind == .single

theorem blanksSequences_eq_false {h : SigHash} : h.blanksSequences = false ↔ h.baseKind = .all := by
  unfold blanksSequences
  rcases h.baseKind_cases with hkind | hkind | hkind <;> simp [hkind]

theorem bytes32_inj {h h' : SigHash} (heq : h.bytes32 = h'.bytes32) : h = h' := by
  have hvalue : ∀ h : SigHash, h.bytes32.toNatLE = h.value.toNat := fun h =>
    Bytes.toNatLE_ofNatLE 4 _ (Nat.lt_trans h.value.toNat_lt (by decide))
  have hnat : h.value.toNat = h'.value.toNat := by rw [← hvalue, heq, hvalue]
  cases h
  cases h'
  exact congrArg SigHash.mk (UInt8.toNat_inj.mp hnat)

end SigHash

namespace Tx

/-- Two transactions agree in what signatures of a type commit to, for an input of each. -/
structure SignedAlike (h : SigHash) (tx tx' : Tx) (i i' : Nat) : Prop where
  version : tx.version = tx'.version
  locktime : tx.locktime = tx'.locktime
  signed : h.anyoneCanPay = true ∨ i = i' →
    tx.inputs[i]?.map TxInput.signedPart = tx'.inputs[i']?.map TxInput.signedPart
  outpoints : h.anyoneCanPay = false → tx.inputs.map TxInput.outpoint = tx'.inputs.map TxInput.outpoint
  sequences : h.anyoneCanPay = false → h.baseKind = .all →
    tx.inputs.map TxInput.sequence = tx'.inputs.map TxInput.sequence
  outputs : h.baseKind = .all → tx.outputs = tx'.outputs
  output : h.baseKind = .single → i = i' ∧ tx.outputs[i]? = tx'.outputs[i']?

/-! ### Signing copies -/

theorem elementAt_of_getElem? {α : Type} {items : List α} {i : Nat} {a : α} (h : items[i]? = some a) :
    elementAt items i = .ok a := by
  unfold elementAt
  simp only [Int.not_lt.mpr (Int.natCast_nonneg i), if_false, Int.toNat_natCast, h]

/-- The copy of the input at a position, where `i` is the position of the one that is signed. -/
def copyInput (blank : Bool) (i : Nat) (code : Bytes) (n : Nat) (a : TxInput) : TxInput :=
  if n = i then { a with unlock := code } else blankInput blank a

section
variable {blank : Bool} {i n : Nat} {code : Bytes} {a : TxInput}

@[simp] theorem outpoint_copyInput : (copyInput blank i code n a).outpoint = a.outpoint := by
  unfold copyInput
  split <;> rfl

theorem unlock_copyInput : (copyInput blank i code n a).unlock = if n = i then code else [] := by
  unfold copyInput
  split <;> rfl

theorem sequence_copyInput :
    (copyInput blank i code n a).sequence = if n = i ∨ blank = false then a.sequence else 0 := by
  unfold copyInput
  by_cases hn : n = i
  · rw [if_pos hn, if_pos (Or.inl hn)]
  · cases blank <;> simp [hn, blankInput]

theorem copyInput_congr {a' : TxInput} (houtpoint : a.outpoint = a'.outpoint)
    (hkept : n = i ∨ blank = false → a.sequence = a'.sequence) :
    copyInput blank i code n a = copyInput blank i code n a' := by
  rw [TxInput.eq_iff, outpoint_copyInput, outpoint_copyInput, unlock_copyInput, unlock_copyInput, sequence_copyInput,
    sequence_copyInput]
  refine ⟨houtpoint, rfl, ?_⟩
  split
  · exact hkept ‹_›
  · rfl

end

section
variable {tx : Tx} {i : Nat} {code : Bytes} {h : SigHash}

theorem signingInputs_anyone (hanyone : h.anyoneCanPay = true) {a : TxInput} (ha : tx.inputs[i]? = some a) :
    signingInputs tx i code h = .ok [{ a with unlock := code }] := by
  unfold signingInputs
  rw [if_pos hanyone, elementAt_of_getElem? ha]
  rfl

theorem signingInputs_all (hanyone : h.anyoneCanPay = false) :
    signingInputs tx i code h = .ok (tx.inputs.mapIdx (copyInput h.blanksSequences i code)) := by
  unfold signingInputs
  rw [if_neg (by rw [hanyone]; exact Bool.false_ne_true), List.mapIdx_eq_zipIdx_map]
  simp only [copyInput, Int.natCast_inj]
  rfl

theorem signingOutputs_all (hkind : h.baseKind = .all) : signingOutputs tx i h = .ok tx.outputs := by
  unfold signingOutputs
  rw [hkind]

theorem signingOutputs_none (hkind : h.baseKind = .none) : signingOutputs tx i h = .ok [] := by
  unfold signingOutputs
  rw [hkind]

theorem signingOutputs_single (hkind : h.baseKind = .single) {o : TxOutput} (ho : tx.outputs[i]? = some o) :
    signingOutputs tx i h = .ok (List.replicate i TxOutput.null ++ [o]) := by
  obtain ⟨hlt, -⟩ := List.getElem?_eq_some_iff.mp ho
  have hthere : ¬((i : Int) < 0 ∨ (tx.outputs.length : Int) ≤ i) := by omega
  unfold signingOutputs
  rw [hkind]
  dsimp only
  rw [if_neg hthere, elementAt_of_getElem? ho]
  rfl

theorem preimage_eq_ok {bytes : Bytes} : preimage tx i code h = .ok bytes ↔
    ∃ inputs, signingInputs tx i (Script.withoutSeparators code) h = .ok inputs ∧
      ∃ outputs, signingOutputs tx i h = .ok outputs ∧
        ∃ body, ({ tx with inputs := inputs, outputs := outputs } : Tx).toBytes = .ok body ∧
          body ++ h.bytes32 = bytes := by
  simp only [preimage, signingCopy, bind_eq_ok, pure, Except.pure, Except.ok.injEq]
  constructor
  · rintro ⟨copy, ⟨inputs, hinputs, outputs, houtputs, rfl⟩, body, hbody, hbytes⟩
    exact ⟨inputs, hinputs, outputs, houtputs, body, hbody, hbytes⟩
  · rintro ⟨inputs, hinputs, outputs, houtputs, body, hbody, hbytes⟩
    exact ⟨_, ⟨inputs, hinputs, outputs, houtputs, rfl⟩, body, hbody, hbytes⟩

theorem signatureHash_eq (hi : i < tx.inputs.length) (ho : h.baseKind = .single → i < tx.outputs.length) :
    signatureHash tx i code h = (preimage tx i code h).map Digest.doubleSha256 := by
  unfold signatureHash
  rw [if_neg (by omega), if_neg fun hout => by have := ho hout.1; omega]

end

/-! ### What is not committed to -/

namespace SignedAlike
variable {tx tx' : Tx} {i : Nat} {h : SigHash}

theorem signingInputs_eq (halike : SignedAlike h tx tx' i i) (hi : i < tx.inputs.length) (hi' : i < tx'.inputs.length)
    (code : Bytes) : signingInputs tx i code h = signingInputs tx' i code h := by
  obtain ⟨a, ha⟩ : ∃ a, tx.inputs[i]? = some a := ⟨_, List.getElem?_eq_getElem hi⟩
  obtain ⟨a', ha'⟩ : ∃ a', tx'.inputs[i]? = some a' := ⟨_, List.getElem?_eq_getElem hi'⟩
  have hsigned := halike.signed (Or.inr rfl)
  rw [ha, ha'] at hsigned
  obtain ⟨houtpoint, hsequence⟩ := Prod.mk.inj (Option.some.inj hsigned)
  cases hanyone : h.anyoneCanPay with
  | true =>
    have hcopy : { a with unlock := code } = { a' with unlock := code } :=
      TxInput.eq_iff.mpr ⟨houtpoint, rfl, hsequence⟩
    rw [signingInputs_anyone hanyone ha, signingInputs_anyone hanyone ha', hcopy]
  | false =>
    rw [signingInputs_all hanyone, signingInputs_all hanyone]
    refine congrArg Except.ok (List.ext_getElem? fun n => ?_)
    rw [List.getElem?_mapIdx, List.getElem?_mapIdx]
    refine map_eq_map_of (map_eq_map_iff.mp (halike.outpoints hanyone) n) fun b b' hb hb' hout => ?_
    refine copyInput_congr hout ?_
    rintro (rfl | hblank)
    · cases ha.symm.trans hb
      cases ha'.symm.trans hb'
      exact hsequence
    · have hsequences := map_eq_map_iff.mp (halike.sequences hanyone (SigHash.blanksSequences_eq_false.mp hblank)) n
      rw [hb, hb'] at hsequences
      exact Option.some.inj hsequences

theorem signingOutputs_eq (halike : SignedAlike h tx tx' i i)
    (ho : h.baseKind = .single → i < tx.outputs.length) : signingOutputs tx i h = signingOutputs tx' i h := by
  rcases h.baseKind_cases with hkind | hkind | hkind
  · rw [signingOutputs_all hkind, signingOutputs_all hkind, halike.outputs hkind]
  · rw [signingOutputs_none hkind, signingOutputs_none hkind]
  · have hout := List.getElem?_eq_getElem (ho hkind)
    rw [signingOutputs_single hkind hout, signingOutputs_single hkind ((halike.output hkind).2.symm.trans hout)]

theorem preimage_eq (halike : SignedAlike h tx tx' i i) (hi : i < tx.inputs.length) (hi' : i < tx'.inputs.length)
    (ho : h.baseKind = .single → i < tx.outputs.length) {code code' : Bytes}
    (hcode : Script.withoutSeparators code = Script.withoutSeparators code') :
    preimage tx i code h = preimage tx' i code' h := by
  unfold preimage signingCopy
  rw [hcode, halike.signingInputs_eq hi hi', halike.signingOutputs_eq ho, halike.version, halike.locktime]

end SignedAlike

/-- Transactions that agree in what a signature commits to have the same hash for it, whatever else they hold: inputs'
    scripts, separators in the script code, and the inputs, sequence numbers and outputs that its type leaves out. -/
theorem signatureHash_eq_of_signedAlike {tx tx' : Tx} {i : Nat} {code code' : Bytes} {h : SigHash}
    (hi : i < tx.inputs.length) (hi' : i < tx'.inputs.length)
    (ho : h.baseKind = .single → i < tx.outputs.length ∧ i < tx'.outputs.length)
    (hcode : Script.withoutSeparators code = Script.withoutSeparators code') (halike : SignedAlike h tx tx' i i) :
    signatureHash tx i code h = signatureHash tx' i code' h ∧
      signatureHash tx i code h = (preimage tx i code h).map Digest.doubleSha256 := by
  have hhash : signatureHash tx i code h = _ := signatureHash_eq hi fun hkind => (ho hkind).1
  refine ⟨?_, hhash⟩
  rw [hhash, signatureHash_eq hi' fun hkind => (ho hkind).2, halike.preimage_eq hi hi' (fun hkind => (ho hkind).1) hcode]

/-- Two inputs without sequence numbers, and two outputs. -/
def twoByTwo : Tx where
  version := 1
  inputs := [⟨List.replicate 32 7, 0, [0x51], 0⟩, ⟨List.replicate 32 9, 1, [], 0⟩]
  outputs := [⟨10, [0x51]⟩, ⟨20, []⟩]
  locktime := 0

/-- A signature of the second input and output alone holds with other inputs and outputs around them. -/
theorem signatureHash_eq_of_signedAlike_single : signatureHash twoByTwo 1 [0xab, 0x51] ⟨0x83⟩ =
    signatureHash { twoByTwo with
      inputs := [⟨[], 4, [], 4⟩, ⟨List.replicate 32 9, 1, [0xac], 0⟩, ⟨[], 5, [], 5⟩]
      outputs := [⟨11, []⟩, ⟨20, []⟩] } 1 [0x51] ⟨0x83⟩ := by
  have hanyone : SigHash.anyoneCanPay ⟨0x83⟩ ≠ false := by decide
  have hkind : SigHash.baseKind ⟨0x83⟩ ≠ .all := by decide
  refine (signatureHash_eq_of_signedAlike (by decide) (by decide) (fun _ => by decide) rfl ?_).1
  exact
    { version := rfl
      locktime := rfl
      signed := fun _ => rfl
      outpoints := fun h => absurd h hanyone
      sequences := fun h => absurd h hanyone
      outputs := fun h => absurd h hkind
      output := fun _ => ⟨rfl, rfl⟩ }

/-! ### What is committed to -/

section
variable {tx tx' : Tx} {i i' : Nat} {code code' : Bytes} {h : SigHash}

theorem signed_of_anyone (hanyone : h.anyoneCanPay = true) (hi : i < tx.inputs.length) (hi' : i' < tx'.inputs.length)
    (hcopies : signingInputs tx i code h = signingInputs tx' i' code' h) : code = code' ∧
      tx.inputs[i]?.map TxInput.signedPart = tx'.inputs[i']?.map TxInput.signedPart := by
  have ha := List.getElem?_eq_getElem hi
  have ha' := List.getElem?_eq_getElem hi'
  rw [signingInputs_anyone hanyone ha, signingInputs_anyone hanyone ha', Except.ok.injEq, List.singleton_inj,
    TxInput.eq_iff] at hcopies
  obtain ⟨houtpoint, hcode, hsequence⟩ := hcopies
  rw [ha, ha']
  exact ⟨hcode, congrArg some (Prod.ext houtpoint hsequence)⟩

theorem copies_of_all (hanyone : h.anyoneCanPay = false)
    (hcopies : signingInputs tx i code h = signingInputs tx' i' code' h) (n : Nat) :
    tx.inputs[n]?.map (copyInput h.blanksSequences i code n) =
      tx'.inputs[n]?.map (copyInput h.blanksSequences i' code' n) := by
  rw [signingInputs_all hanyone, signingInputs_all hanyone, Except.ok.injEq] at hcopies
  rw [← List.getElem?_mapIdx, hcopies, List.getElem?_mapIdx]

section
variable {blank : Bool}
  (hcopies : ∀ n, tx.inputs[n]?.map (copyInput blank i code n) = tx'.inputs[n]?.map (copyInput blank i' code' n))
include hcopies

/-- Where the positions of the signed inputs differ, each copy has an empty script at the position of the other. -/
theorem code_of_copies (hi : i < tx.inputs.length) (hi' : i' < tx'.inputs.length) : code = code' := by
  have hunlock : ∀ n, tx.inputs[n]?.map (fun _ => if n = i then code else []) =
      tx'.inputs[n]?.map fun _ => if n = i' then code' else [] := fun n =>
    map_eq_map_of (hcopies n) fun a a' _ _ hcopy => by
      have := congrArg TxInput.unlock hcopy
      rwa [unlock_copyInput, unlock_copyInput] at this
  have hleft := hunlock i
  rw [List.getElem?_eq_getElem hi, Option.map_some, if_pos rfl] at hleft
  obtain ⟨-, -, hleft⟩ := Option.map_eq_some_iff.mp hleft.symm
  have hright := hunlock i'
  rw [List.getElem?_eq_getElem hi', Option.map_some, if_pos rfl] at hright
  obtain ⟨-, -, hright⟩ := Option.map_eq_some_iff.mp hright
  by_cases heq : i = i'
  · rw [if_pos heq] at hleft
    exact hleft.symm
  · rw [if_neg heq] at hleft
    rw [if_neg fun h => heq h.symm] at hright
    rw [← hleft, ← hright]

theorem outpoints_of_copies : tx.inputs.map TxInput.outpoint = tx'.inputs.map TxInput.outpoint := by
  refine map_eq_map_iff.mpr fun n => map_eq_map_of (hcopies n) fun a a' _ _ hcopy => ?_
  simpa using congrArg TxInput.outpoint hcopy

theorem signedPart_of_copies {n : Nat} (hkept : (n = i ∧ n = i') ∨ blank = false) :
    tx.inputs[n]?.map TxInput.signedPart = tx'.inputs[n]?.map TxInput.signedPart := by
  refine map_eq_map_of (hcopies n) fun a a' _ _ hcopy => ?_
  rw [TxInput.eq_iff, outpoint_copyInput, outpoint_copyInput, sequence_copyInput, sequence_copyInput,
    if_pos (hkept.imp_left And.left), if_pos (hkept.imp_left And.right)] at hcopy
  exact Prod.ext hcopy.1 hcopy.2.2

end

/-- The blank outputs before the signed one tell its position. -/
theorem output_of_single (hkind : h.baseKind = .single) (ho : i < tx.outputs.length) (ho' : i' < tx'.outputs.length)
    {outputs : List TxOutput} (hout : signingOutputs tx i h = .ok outputs) (hout' : signingOutputs tx' i' h = .ok outputs) :
    i = i' ∧ tx.outputs[i]? = tx'.outputs[i']? := by
  have hget := List.getElem?_eq_getElem ho
  have hget' := List.getElem?_eq_getElem ho'
  rw [signingOutputs_single hkind hget] at hout
  rw [signingOutputs_single hkind hget', ← hout] at hout'
  have heq := Except.ok.inj hout'
  have hi : i' = i := by simpa using congrArg List.length heq
  subst hi
  have hsigned := List.append_cancel_left heq
  rw [hget, hget', List.singleton_inj.mp hsigned]
  exact ⟨rfl, rfl⟩

end

/-! ### Transactions on the wire -/

theorem copyInput_onWire {blank : Bool} {i n : Nat} {code : Bytes} {a : TxInput} (ha : a.OnWire)
    (hcode : code.length < 2 ^ 63) : (copyInput blank i code n a).OnWire := by
  unfold copyInput
  split
  · exact { ha with unlock := hcode }
  · refine { ha with unlock := Nat.two_pow_pos 63, sequence := ?_ }
    cases blank with
    | true => exact (by decide : Wire.Word.uint32.Fits 0)
    | false => exact ha.sequence

/-- A signature of an input can be formed: its type, script code and transaction have all that it needs. -/
structure Signable (tx : Tx) (i : Nat) (code : Bytes) (h : SigHash) : Prop where
  onWire : tx.OnWire
  input : i < tx.inputs.length
  output : h.baseKind = .single → i < tx.outputs.length
  code : code.length < 2 ^ 63

namespace Signable
variable {tx : Tx} {i : Nat} {code : Bytes} {h : SigHash}

theorem exists_signingInputs (hs : Signable tx i code h) :
    ∃ inputs, signingInputs tx i (Script.withoutSeparators code) h = .ok inputs ∧ (∀ a ∈ inputs, a.OnWire) ∧
      inputs.length < 2 ^ 63 := by
  have hcode := Nat.lt_of_le_of_lt (Script.length_withoutSeparators_le code) hs.code
  cases hanyone : h.anyoneCanPay with
  | true =>
    refine ⟨_, signingInputs_anyone hanyone (List.getElem?_eq_getElem hs.input), fun a ha => ?_, by simp⟩
    rw [List.mem_singleton.mp ha]
    exact { hs.onWire.inputs _ (List.getElem_mem hs.input) with unlock := hcode }
  | false =>
    refine ⟨_, signingInputs_all hanyone, fun a ha => ?_, by simpa using hs.onWire.inputCount⟩
    obtain ⟨n, hn, rfl⟩ := List.mem_mapIdx.mp ha
    exact copyInput_onWire (hs.onWire.inputs _ (List.getElem_mem hn)) hcode

theorem exists_signingOutputs (hs : Signable tx i code h) :
    ∃ outputs, signingOutputs tx i h = .ok outputs ∧ (∀ o ∈ outputs, o.OnWire) ∧ outputs.length < 2 ^ 63 := by
  rcases h.baseKind_cases with hkind | hkind | hkind
  · exact ⟨_, signingOutputs_all hkind, hs.onWire.outputs, hs.onWire.outputCount⟩
  · exact ⟨_, signingOutputs_none hkind, fun o ho => (nomatch ho), by decide⟩
  · have hout := List.getElem?_eq_getElem (hs.output hkind)
    refine ⟨_, signingOutputs_single hkind hout, fun o ho => ?_, ?_⟩
    · rcases List.mem_append.mp ho with hnull | hsigned
      · rw [(List.mem_replicate.mp hnull).2]
        exact ⟨by decide, by decide⟩
      · rw [List.mem_singleton.mp hsigned]
        exact hs.onWire.outputs _ (List.getElem_mem _)
    · have := hs.onWire.outputCount
      have := hs.output hkind
      simp only [List.length_append, List.length_replicate, List.length_singleton]
      omega

theorem exists_preimage (hs : Signable tx i code h) : ∃ bytes, preimage tx i code h = .ok bytes := by
  obtain ⟨inputs, hinputs, hin, hinLen⟩ := hs.exists_signingInputs
  obtain ⟨outputs, houtputs, hout, houtLen⟩ := hs.exists_signingOutputs
  have hcopy : OnWire { tx with inputs := inputs, outputs := outputs } :=
    { hs.onWire with inputs := hin, inputCount := hinLen, outputs := hout, outputCount := houtLen }
  obtain ⟨body, hbody⟩ := hcopy.exists_toBytes
  exact ⟨_, preimage_eq_ok.mpr ⟨inputs, hinputs, outputs, houtputs, body, hbody, rfl⟩⟩

theorem prevHash_of_signingInputs (hs : Signable tx i code h) {inputs : List TxInput}
    (hinputs : signingInputs tx i (Script.withoutSeparators code) h = .ok inputs) :
    ∀ a ∈ inputs, a.prevHash.length = 32 := by
  obtain ⟨inputs', hinputs', hin, -⟩ := hs.exists_signingInputs
  cases hinputs.symm.trans hinputs'
  exact fun a ha => (hin a ha).prevHash

end Signable

section
variable {tx tx' : Tx} {i i' : Nat} {code code' : Bytes} {h h' : SigHash}

/-- What is signed tells the type and the copy of the transaction. -/
theorem copies_of_preimage {bytes : Bytes} (hs : Signable tx i code h) (hs' : Signable tx' i' code' h')
    (hbytes : preimage tx i code h = .ok bytes) (hbytes' : preimage tx' i' code' h' = .ok bytes) :
    h = h' ∧ tx.version = tx'.version ∧ tx.locktime = tx'.locktime ∧
      signingInputs tx i (Script.withoutSeparators code) h = signingInputs tx' i' (Script.withoutSeparators code') h' ∧
      ∃ outputs, signingOutputs tx i h = .ok outputs ∧ signingOutputs tx' i' h' = .ok outputs := by
  obtain ⟨inputs, hinputs, outputs, houtputs, body, hbody, rfl⟩ := preimage_eq_ok.mp hbytes
  obtain ⟨inputs', hinputs', outputs', houtputs', body', hbody', heq⟩ := preimage_eq_ok.mp hbytes'
  obtain ⟨hbodies, htype⟩ := List.append_inj' heq (by simp [SigHash.bytes32])
  obtain ⟨hcopy, -⟩ := toBytes_unambiguous (hs.prevHash_of_signingInputs hinputs) (hs'.prevHash_of_signingInputs hinputs')
    hbody hbody' (congrArg (· ++ []) hbodies.symm)
  rw [Tx.mk.injEq] at hcopy
  obtain ⟨hversion, rfl, rfl, hlocktime⟩ := hcopy
  exact ⟨(SigHash.bytes32_inj htype).symm, hversion, hlocktime, hinputs.trans hinputs'.symm, outputs, houtputs, houtputs'⟩

theorem signedAlike_of_copies (hs : Signable tx i code h) (hs' : Signable tx' i' code' h)
    (hversion : tx.version = tx'.version) (hlocktime : tx.locktime = tx'.locktime)
    (hinputs : signingInputs tx i (Script.withoutSeparators code) h =
      signingInputs tx' i' (Script.withoutSeparators code') h)
    {outputs : List TxOutput} (hout : signingOutputs tx i h = .ok outputs) (hout' : signingOutputs tx' i' h = .ok outputs) :
    Script.withoutSeparators code = Script.withoutSeparators code' ∧ SignedAlike h tx tx' i i' := by
  have houtputs : h.baseKind = .all → tx.outputs = tx'.outputs := fun hkind => by
    rw [signingOutputs_all hkind] at hout hout'
    exact Except.ok.inj (hout.trans hout'.symm)
  have houtput := fun hkind => output_of_single hkind (hs.output hkind) (hs'.output hkind) hout hout'
  cases hanyone : h.anyoneCanPay with
  | true =>
    obtain ⟨hcode, hsigned⟩ := signed_of_anyone hanyone hs.input hs'.input hinputs
    exact ⟨hcode, hversion, hlocktime, fun _ => hsigned, by simp [hanyone], by simp [hanyone], houtputs, houtput⟩
  | false =>
    have hcopies := copies_of_all hanyone hinputs
    refine ⟨code_of_copies hcopies hs.input hs'.input, hversion, hlocktime, ?_, fun _ => outpoints_of_copies hcopies, ?_,
      houtputs, houtput⟩
    · rintro (hone | rfl)
      · cases hone.symm.trans hanyone
      · exact signedPart_of_copies hcopies (Or.inl ⟨rfl, rfl⟩)
    · intro _ hkind
      have hkept := fun n => signedPart_of_copies (n := n) hcopies (Or.inr (SigHash.blanksSequences_eq_false.mpr hkind))
      exact map_eq_map_iff.mpr fun n => map_eq_map_of (hkept n) fun a a' _ _ hpart => (Prod.mk.inj hpart).2

/-- What is signed can be formed, and it fixes all that the signature commits to: its type, the script code up to
    separators, and the parts in which transactions that are signed alike agree. -/
theorem preimage_commits (hs : Signable tx i code h) (hs' : Signable tx' i' code' h') :
    (∃ bytes, preimage tx i code h = .ok bytes) ∧
      ∀ bytes, preimage tx i code h = .ok bytes → preimage tx' i' code' h' = .ok bytes →
        h = h' ∧ Script.withoutSeparators code = Script.withoutSeparators code' ∧ SignedAlike h tx tx' i i' := by
  refine ⟨hs.exists_preimage, fun bytes hbytes hbytes' => ?_⟩
  obtain ⟨rfl, hversion, hlocktime, hinputs, outputs, hout, hout'⟩ := copies_of_preimage hs hs' hbytes hbytes'
  exact ⟨rfl, signedAlike_of_copies hs hs' hversion hlocktime hinputs hout hout'⟩

end

theorem onWire_twoByTwo : twoByTwo.OnWire where
  version := by decide
  inputs := by
    simp only [twoByTwo, List.forall_mem_cons]
    exact ⟨⟨by decide, by decide, by decide, by decide⟩, ⟨by decide, by decide, by decide, by decide⟩,
      fun a ha => (nomatch ha)⟩
  inputCount := by decide
  outputs := by
    simp only [twoByTwo, List.forall_mem_cons]
    exact ⟨⟨by decide, by decide⟩, ⟨by decide, by decide⟩, fun o ho => (nomatch ho)⟩
  outputCount := by decide
  locktime := by decide

/-- Without a script code and sequence numbers the same is signed for different inputs, but the type still commits to the
    outputs that all inputs spend. -/
theorem preimage_commits_twoByTwo :
    (∃ bytes, preimage twoByTwo 0 [] ⟨2⟩ = .ok bytes ∧ preimage { twoByTwo with outputs := [] } 1 [0xab] ⟨2⟩ = .ok bytes) ∧
      SignedAlike ⟨2⟩ twoByTwo { twoByTwo with outputs := [] } 0 1 := by
  have hkind : SigHash.baseKind ⟨2⟩ ≠ .single := by decide
  have hs : Signable twoByTwo 0 [] ⟨2⟩ := ⟨onWire_twoByTwo, by decide, fun h => absurd h hkind, by decide⟩
  have hwire : OnWire { twoByTwo with outputs := [] } :=
    { onWire_twoByTwo with outputs := fun o ho => (nomatch ho), outputCount := by decide }
  have hs' : Signable { twoByTwo with outputs := [] } 1 [0xab] ⟨2⟩ := ⟨hwire, by decide, fun h => absurd h hkind, by decide⟩
  have hsame : preimage twoByTwo 0 [] ⟨2⟩ = preimage { twoByTwo with outputs := [] } 1 [0xab] ⟨2⟩ := rfl
  obtain ⟨⟨bytes, hbytes⟩, hcommits⟩ := preimage_commits hs hs'
  exact ⟨⟨bytes, hbytes, hsame ▸ hbytes⟩, (hcommits bytes hbytes (hsame ▸ hbytes)).2.2⟩

end Tx

end SpendScript
