import SpendScript.Proofs.OutputClassification

/-! # Recognising inputs

An input of a form with keys or signatures, or of the script that such an input spends, is recognised from the script that
it is written as, and whatever is recognised is such an input or unknown (`Input.classify_inverts`). All forms are pushes,
so that the items of one may make up several. The first that they make up is the right one: no script of an output begins
as a key or a signature does (`Output.head_toScript`), and no placeholder is a signature. -/

namespace SpendScript

open Fault

/-! ### Beginnings -/

theorem Output.head_toScript {o : Output} (h : o.isRedeemable = true) :
    ∃ b rest, o.toScript = b :: rest ∧ 0x21 ≤ b ∧ b ≠ 0x30 := by
  have hfirst : ∀ (op : Operation) (ops : List Operation), Script.ofOps (op :: ops) =
      op.opcode :: (op.operand ++ Script.ofOps ops) := by
    intro op ops
    show op.toBytes ++ Script.ofOps ops = _
    rw [op.toBytes_eq]
    rfl
  rw [toScript_eq (isStandard_of_isRedeemable h)]
  cases o with
  | p2pkh hash => exact ⟨_, _, hfirst _ _, by decide, by decide⟩
  | p2pk key =>
    refine ⟨_, _, hfirst _ _, ?_⟩
    rw [Push.opcode_operation key.length_lt]
    rcases key.length_bytes with hlen | hlen
    · rw [Push.opcode_of_length (by omega) (by omega), hlen]
      decide
    · rw [Push.opcode_of_length (by omega) (by omega), hlen]
      decide
  | multisig m =>
    obtain ⟨hlow, hthreshold, hkeys⟩ := m.bounds
    have hsmall : ∀ n : Fin 17, 1 ≤ n.val →
        0x21 ≤ Push.opcode (Number.encode n.val) ∧ Push.opcode (Number.encode n.val) ≠ 0x30 := by decide
    refine ⟨_, _, hfirst _ _, ?_⟩
    rw [Push.opcode_operation (m.length_item_lt _ List.mem_cons_self)]
    exact hsmall ⟨m.threshold, Nat.lt_succ_of_le (Nat.le_trans hthreshold hkeys)⟩ hlow
  | p2sh | unknown => cases h

theorem Output.length_toScript_lt {o : Output} (h : o.isRedeemable = true) : o.toScript.length < 2 ^ 32 := by
  rw [toScript_eq (isStandard_of_isRedeemable h)]
  exact Nat.lt_of_le_of_lt (isStraight_ops h).size (by decide)

theorem not_isPublicKey_of_le {b : UInt8} {rest : Bytes} (h : 0x21 ≤ b) : isPublicKey (b :: rest) = false := by
  have hne : ∀ c : UInt8, c < 0x21 → b ≠ c := by
    rintro c hc rfl
    exact absurd h (UInt8.not_le.mpr hc)
  simp [isPublicKey, hne 2 (by decide), hne 3 (by decide), hne 4 (by decide)]

/-! ### Signatures and pushes -/

theorem Der.head?_of_laxNumbers? {bytes : Bytes} {p : Nat × Nat} (h : laxNumbers? bytes = some p) :
    bytes.head? = some 0x30 := by
  unfold laxNumbers? at h
  obtain ⟨rest, htag, -⟩ := Option.bind_eq_some_iff.mp h
  cases bytes with
  | nil => cases htag
  | cons b bytes =>
    by_cases hb : b = 0x30
    · rw [hb]
      rfl
    · cases (if_neg hb).symm.trans htag

theorem Der.decodeLax_ends (bytes : Bytes) :
    Ends (fun p => (p.1 < curveOrder ∧ p.2 < curveOrder) ∧ bytes.head? = some 0x30) IsMisfit (decodeLax bytes) := by
  unfold decodeLax
  split
  · rfl
  · rename_i r s hnumbers
    refine ⟨?_, head?_of_laxNumbers? hnumbers⟩
    split
    · assumption
    · decide

/-- What is read as a signature is in range, and begins as a sequence does. -/
theorem TxSignature.ofBytes_ends (sig : Bytes) :
    Ends (fun s => s.InRange ∧ sig.head? = some 0x30) IsMisfit (ofBytes sig) := by
  have hhead : sig.dropLast.head? = some 0x30 → sig.head? = some 0x30 := by
    intro h
    cases sig with
    | nil => cases h
    | cons a rest =>
      cases rest with
      | nil => cases h
      | cons b rest => exact h
  unfold ofBytes
  split
  · rfl
  · refine (Der.decodeLax_ends sig.dropLast).map ?_
    rintro ⟨r, s⟩ ⟨⟨hr, hs⟩, hbegin⟩
    exact ⟨⟨⟨Int.natCast_nonneg r, Int.ofNat_lt.mpr hr⟩, Int.natCast_nonneg s, Int.ofNat_lt.mpr hs⟩, hhead hbegin⟩

theorem Script.pushMany_ends (items : List Bytes) : Ends (fun _ => True) IsMisfit (pushMany items) := by
  have hpush : ∀ piece ∈ items.map Piece.data, Ends (fun _ => True) IsMisfit piece.bytes := by
    refine List.forall_mem_map.mpr fun item _ => ?_
    show Ends (fun _ => True) IsMisfit (if item.length < 2 ^ 32 then _ else _)
    split
    · trivial
    · rfl
  exact (Ends.mapM hpush).bind fun parts _ => trivial

/-! ### Choices -/

namespace Input

section
variable {items : List Bytes} {form : Form} {forms : List Form}

theorem firstOf_made {i : Input} (h : form items = .ok i) : firstOf (form :: forms) items = .ok (some i) := by
  unfold firstOf
  rw [h]
  rfl

theorem firstOf_misfit (h : Ends (fun _ => False) IsMisfit (form items)) :
    firstOf (form :: forms) items = firstOf forms items := by
  cases hform : form items with
  | ok i =>
    rw [hform] at h
    exact absurd h id
  | error f =>
    rw [hform] at h
    have htolerated : tolerate Output.misfits (form items) = .ok none := by
      rw [hform]
      exact if_pos h
    rw [firstOf, htolerated]
    rfl

/-- If every form makes inputs with a property or does not fit, then so does their choice. -/
theorem firstOf_ends {P : Input → Prop} (h : ∀ form ∈ forms, Ends P IsMisfit (form items)) :
    ∃ i?, firstOf forms items = .ok i? ∧ ∀ i ∈ i?, P i := by
  induction forms with
  | nil => exact ⟨none, rfl, fun i hi => nomatch hi⟩
  | cons form forms ih =>
    have hform := h form List.mem_cons_self
    cases hmade : form items with
    | ok i =>
      rw [hmade] at hform
      exact ⟨some i, firstOf_made hmade, fun j hj => Option.mem_some.mp hj ▸ hform⟩
    | error f =>
      rw [hmade] at hform
      rw [firstOf_misfit (by rw [hmade]; exact hform)]
      exact ih fun form hf => h form (List.mem_cons_of_mem _ hf)

end

/-! ### Standard inputs -/

/-- An input with keys or signatures, all of them in range. -/
def IsPlain : Input → Prop
  | p2pkh sig _ => sig.InRange
  | p2pk sig => sig.InRange
  | multisig m => ∀ sig ∈ m.signatures, sig.InRange
  | p2sh _ _ | unknown _ => False

/-- An input with keys or signatures, or one followed by the script that it has the form for. -/
def IsStandard (hashes : Hashes) (i : Input) : Prop :=
  i.IsPlain ∨ ∃ inner redeem, i = .p2sh inner redeem ∧ inner.IsPlain ∧ inner.fits hashes redeem = true

/-- The items that the script of a standard input pushes. -/
def items : Input → List Bytes
  | p2pkh sig key => [sig.bytes, key.bytes]
  | p2pk sig => [sig.bytes]
  | multisig m => m.items
  | p2sh inner redeem => inner.items ++ [redeem.toScript]
  | unknown _ => []

theorem isRedeemable_of_fits {hashes : Hashes} {i : Input} {o : Output} (h : i.IsPlain) (hfits : i.fits hashes o = true) :
    o.isRedeemable = true := by
  cases i with
  | p2sh | unknown => exact absurd h id
  | p2pkh | p2pk | multisig =>
    cases o with
    | p2pkh | p2pk | multisig => rfl
    | p2sh | unknown => cases hfits

section
variable {i : Input} (h : i.IsPlain)
include h

theorem IsPlain.length_lt : ∀ item ∈ i.items, item.length < 2 ^ 32 := by
  cases i with
  | p2pkh sig key => exact List.forall_mem_cons.mpr ⟨TxSignature.length_lt h, List.forall_mem_singleton.mpr key.length_lt⟩
  | p2pk sig => exact List.forall_mem_singleton.mpr (TxSignature.length_lt h)
  | multisig m =>
    exact fun item hitem => Nat.lt_of_le_of_lt (MultisigInput.length_item_le h item hitem) (by decide)
  | p2sh | unknown => exact absurd h id

theorem IsPlain.toScript_eq : i.toScript = .ok (Script.ofOps (i.items.map Push.operation)) := by
  cases i with
  | p2pkh sig key => exact toScript_p2pkhInput h key
  | p2pk sig => exact toScript_p2pkInput h
  | multisig m => exact toScript_multisigInput h
  | p2sh | unknown => exact absurd h id

theorem IsPlain.items_ne_nil : i.items ≠ [] := by
  cases i with
  | p2pkh | p2pk | multisig => exact List.cons_ne_nil _ _
  | p2sh | unknown => exact absurd h id

end

theorem IsStandard.length_lt {hashes : Hashes} {i : Input} (h : i.IsStandard hashes) :
    ∀ item ∈ i.items, item.length < 2 ^ 32 := by
  rcases h with hplain | ⟨inner, redeem, rfl, hplain, hfits⟩
  · exact hplain.length_lt
  · intro item hitem
    rcases List.mem_append.mp hitem with hitem | hitem
    · exact hplain.length_lt item hitem
    · rw [List.mem_singleton.mp hitem]
      exact Output.length_toScript_lt (isRedeemable_of_fits hplain hfits)

theorem IsStandard.toScript_eq {hashes : Hashes} {i : Input} (h : i.IsStandard hashes) :
    i.toScript = .ok (Script.ofOps (i.items.map Push.operation)) := by
  rcases h with hplain | ⟨inner, redeem, rfl, hplain, hfits⟩
  · exact hplain.toScript_eq
  · have hlen := Output.length_toScript_lt (isRedeemable_of_fits hplain hfits)
    have hpush : Script.Piece.bytes (.data redeem.toScript) = .ok (Push.operation redeem.toScript).toBytes := by
      rw [Push.toBytes_operation hlen]
      exact if_pos hlen
    have hitems : Script.ofOps ((p2sh inner redeem).items.map Push.operation) =
        Script.ofOps (inner.items.map Push.operation) ++ (Push.operation redeem.toScript).toBytes := by
      simp [items, Script.ofOps]
    rw [hitems, toScript, hplain.toScript_eq]
    unfold Script.append
    simp only [hpush, bind, Except.bind, pure, Except.pure]

/-! ### Reading back -/

theorem recognizeAs_operations (forms : List Form) {items : List Bytes} (h : ∀ item ∈ items, item.length < 2 ^ 32) :
    recognizeAs forms (Script.ofOps (items.map Push.operation)) = firstOf forms items := by
  have hitems : Output.pushedItems (items.map Push.operation) = items := filterMap_operations h
  have hdecode := Script.decode_ofOps (isDistinct_operations h)
  have hall : (items.map Push.operation).all (·.item?.isSome) = true := List.all_eq_true.mpr (items_operations h)
  unfold recognizeAs
  rw [Script.tolerate_decode, hdecode]
  show (if (items.map Push.operation).all (·.item?.isSome) = true then _ else _) = _
  rw [if_pos hall, hitems]

end Input

theorem MultisigInput.length_items (m : MultisigInput) : m.items.length = m.required + 1 := by
  have hsigs := m.bounds.2.2
  simp [items]
  omega

theorem MultisigInput.ofItems_items {m : MultisigInput} (h : ∀ sig ∈ m.signatures, sig.InRange) :
    ofItems m.items = .ok m := by
  have hlen := Nat.succ.inj m.length_items
  obtain ⟨sigs, required, hbounds⟩ := m
  have hfilter : (sigs.map TxSignature.bytes ++ List.replicate (required - sigs.length) []).filter (· ≠ []) =
      sigs.map TxSignature.bytes := by
    have hsigs : (sigs.map TxSignature.bytes).filter (· ≠ []) = sigs.map TxSignature.bytes := by
      refine List.filter_eq_self.mpr (List.forall_mem_map.mpr fun sig _ => decide_eq_true fun hnil => ?_)
      simp [TxSignature.bytes] at hnil
    rw [List.filter_append, hsigs]
    simp
  have hread : (sigs.map TxSignature.bytes).mapM TxSignature.ofBytes = .ok sigs := by
    rw [mapM_map_eq_ok fun sig hsig => TxSignature.ofBytes_bytes (h sig hsig), List.map_id']
  unfold ofItems items
  dsimp only
  rw [if_neg (by simp), hfilter, hread, hlen]
  exact dif_pos hbounds

/-- What an input with several signatures is made of: after the first item, signatures and empty items. -/
theorem MultisigInput.ofItems_ends (items : List Bytes) :
    Ends (fun m => (∀ sig ∈ m.signatures, sig.InRange) ∧ ∀ item ∈ items.tail, item = [] ∨ item.head? = some 0x30) IsMisfit
      (ofItems items) := by
  unfold ofItems
  split
  · rfl
  · rename_i dummy rest
    split
    · rfl
    · have hsound : ∀ item ∈ rest.filter (· ≠ []), Ends TxSignature.InRange IsMisfit (TxSignature.ofBytes item) :=
        fun item _ => (TxSignature.ofBytes_ends item).mono fun _ h => h.1
      refine (Ends.mapM hsound).with_eq.bind fun sigs hsigs => ?_
      unfold make
      split
      · refine ⟨hsigs.1.2, fun item hitem => ?_⟩
        by_cases hnil : item = []
        · exact Or.inl hnil
        · obtain ⟨sig, hsig⟩ := exists_mapM_eq_ok.mp ⟨sigs, hsigs.2⟩ item (List.mem_filter.mpr ⟨hitem, decide_eq_true hnil⟩)
          have hends := TxSignature.ofBytes_ends item
          rw [hsig] at hends
          exact Or.inr hends.2
      · exact IsMisfit.reported rfl

namespace Input

/-! ### Forms with keys and signatures -/

/-- The last of several items of an input with keys or signatures is a key, a signature or empty. -/
def EndsPlain (items : List Bytes) : Prop :=
  ∀ front last, items = front ++ [last] → front ≠ [] → isPublicKey last = true ∨ last = [] ∨ last.head? = some 0x30

theorem ofP2pkhItems_ends (items : List Bytes) :
    Ends (fun i => i.IsPlain ∧ EndsPlain items) IsMisfit (ofP2pkhItems items) := by
  unfold ofP2pkhItems
  split
  · rename_i sig key
    refine (TxSignature.ofBytes_ends sig).bind fun s hs => (PublicKey.make_ends key).bind fun k hk => ?_
    refine ⟨hs.1, fun front last hitems _ => Or.inl ?_⟩
    have hlast : [sig, key].getLast? = some last := by rw [hitems, List.getLast?_concat]
    cases hlast
    exact hk ▸ k.valid
  · rfl

theorem ofP2pkItems_ends (items : List Bytes) :
    Ends (fun i => i.IsPlain ∧ EndsPlain items) IsMisfit (ofP2pkItems items) := by
  unfold ofP2pkItems
  split
  · rename_i sig
    refine (TxSignature.ofBytes_ends sig).map fun s hs => ⟨hs.1, fun front last hitems hne => ?_⟩
    have hlen := congrArg List.length hitems
    have hpos := List.length_pos_iff.mpr hne
    simp only [List.length_append, List.length_singleton] at hlen
    omega
  · rfl

theorem ofTwo_ends {form : Form} {items : List Bytes} {P : Input → Prop} (h : Ends P IsMisfit (form items)) :
    Ends P IsMisfit (form.ofTwo items) := by
  unfold Form.ofTwo
  split
  · rfl
  · exact h

theorem plainForms_ends (items : List Bytes) :
    ∀ form ∈ plainForms, Ends (fun i => i.IsPlain ∧ EndsPlain items) IsMisfit (form items) := by
  simp only [plainForms, List.mem_cons, List.not_mem_nil, or_false]
  rintro form (rfl | rfl | rfl)
  · exact ofP2pkhItems_ends items
  · exact ofP2pkItems_ends items
  · refine ofTwo_ends ((MultisigInput.ofItems_ends items).map fun m hm => ⟨hm.1, fun front last hitems hne => Or.inr ?_⟩)
    refine hm.2 last ?_
    rw [hitems, List.tail_append_of_ne_nil hne]
    exact List.mem_append_right _ (List.mem_singleton_self last)

theorem firstOf_plain {i : Input} (h : i.IsPlain) : firstOf plainForms i.items = .ok (some i) := by
  cases i with
  | p2pkh sig key =>
    have hmade : ofP2pkhItems [sig.bytes, key.bytes] = .ok (p2pkh sig key) := by
      unfold ofP2pkhItems
      dsimp only
      rw [TxSignature.ofBytes_bytes h, key.make_bytes]
      rfl
    exact firstOf_made hmade
  | p2pk sig =>
    have hother : Ends (fun _ => False) IsMisfit (ofP2pkhItems [sig.bytes]) := rfl
    have hmade : ofP2pkItems [sig.bytes] = .ok (p2pk sig) := by
      unfold ofP2pkItems
      dsimp only
      rw [TxSignature.ofBytes_bytes h]
      rfl
    exact (firstOf_misfit hother).trans (firstOf_made hmade)
  | multisig m =>
    -- the empty item is no signature, and at least one more follows it
    have hmade := MultisigInput.ofItems_items h
    have hlen := m.length_items
    obtain ⟨second, rest, hitems⟩ : ∃ second rest, m.items = [] :: second :: rest := by
      have hrest := Nat.succ.inj hlen
      obtain ⟨second, rest, hrest⟩ := List.exists_cons_of_length_pos (Nat.lt_of_lt_of_eq m.bounds.1 hrest.symm)
      exact ⟨second, rest, congrArg ([] :: ·) hrest⟩
    have hp2pkh : Ends (fun _ => False) IsMisfit (ofP2pkhItems m.items) := by
      rw [hitems]
      cases rest <;> rfl
    have hp2pk : Ends (fun _ => False) IsMisfit (ofP2pkItems m.items) := by
      rw [hitems]
      rfl
    refine (firstOf_misfit hp2pkh).trans ((firstOf_misfit hp2pk).trans (firstOf_made ?_))
    have hlow := m.bounds.1
    unfold Form.ofTwo
    rw [if_neg (by rw [hlen]; omega)]
    exact congrArg (Except.map multisig) hmade
  | p2sh | unknown => exact absurd h id

/-! ### The script of an input and that script -/

/-- Items that end in the script of an output make up no input with keys or signatures. -/
theorem not_endsPlain {front : List Bytes} {redeem : Output} (hfront : front ≠ []) (h : redeem.isRedeemable = true) :
    ¬EndsPlain (front ++ [redeem.toScript]) := by
  intro hplain
  obtain ⟨b, rest, hscript, hlow, hne⟩ := Output.head_toScript h
  rw [hscript] at hplain
  rcases hplain front (b :: rest) rfl hfront with hkey | hnil | hsig
  · rw [not_isPublicKey_of_le hlow] at hkey
    cases hkey
  · cases hnil
  · exact hne (Option.some.inj hsig)

theorem firstOf_redeem {front : List Bytes} {redeem : Output} (hfront : front ≠ []) (h : redeem.isRedeemable = true) :
    firstOf plainForms (front ++ [redeem.toScript]) = .ok none := by
  obtain ⟨i?, hfirst, hnone⟩ := firstOf_ends fun form hform =>
    (plainForms_ends (front ++ [redeem.toScript]) form hform).mono fun _ hi => not_endsPlain hfront h hi.2
  cases i? with
  | none => exact hfirst
  | some i => exact (hnone i rfl).elim

theorem firstOf_append {forms more : List Form} {items : List Bytes} {i? : Option Input}
    (h : firstOf forms items = .ok i?) :
    firstOf (forms ++ more) items = if i?.isSome then .ok i? else firstOf more items := by
  induction forms with
  | nil =>
    cases h
    rfl
  | cons form forms ih =>
    rw [firstOf] at h
    rw [List.cons_append, firstOf]
    obtain ⟨made, hmade, h⟩ := bind_eq_ok.mp h
    rw [hmade]
    cases made with
    | some i =>
      cases h
      rfl
    | none => exact ih h

theorem recognizeAs_ends {forms : List Form} {P : Input → Prop}
    (h : ∀ items, ∀ form ∈ forms, Ends P IsMisfit (form items)) (script : Bytes) :
    ∃ i?, recognizeAs forms script = .ok i? ∧ ∀ i ∈ i?, P i := by
  unfold recognizeAs
  rw [Script.tolerate_decode]
  cases (Script.decode script).toOption with
  | none => exact ⟨none, rfl, fun i hi => nomatch hi⟩
  | some ops =>
    show ∃ i?, (if ops.all (·.item?.isSome) = true then _ else _) = _ ∧ _
    split
    · exact firstOf_ends (h (Output.pushedItems ops))
    · exact ⟨none, rfl, fun i hi => nomatch hi⟩

theorem ofP2shItems_ends (hashes : Hashes) (items : List Bytes) :
    Ends (IsStandard hashes) IsMisfit (ofP2shItems hashes items) := by
  unfold ofP2shItems
  split
  · rfl
  · rw [Output.recognize_eq_classify]
    show Ends (IsStandard hashes) IsMisfit (if (Output.classify (items.getLastD [])).isRedeemable = true then _ else _)
    split
    · refine (Script.pushMany_ends items.dropLast).bind fun script _ => ?_
      obtain ⟨i?, hi, hplain⟩ := recognizeAs_ends (fun items form hform => (plainForms_ends items form hform).mono
        fun _ h => h.1) script
      rw [hi]
      cases i? with
      | none => rfl
      | some inner =>
        show Ends (IsStandard hashes) IsMisfit (makeP2sh hashes inner _)
        unfold makeP2sh
        split
        · rename_i hfits
          exact Or.inr ⟨inner, _, rfl, hplain inner rfl, hfits⟩
        · rfl
    · rfl

theorem ofP2shItems_items {hashes : Hashes} {inner : Input} {redeem : Output} (h : inner.IsPlain)
    (hfits : inner.fits hashes redeem = true) :
    ofP2shItems hashes (inner.items ++ [redeem.toScript]) = .ok (.p2sh inner redeem) := by
  have hredeem := isRedeemable_of_fits h hfits
  have hclass := Output.classify_toScript (Output.isStandard_of_isRedeemable hredeem)
  unfold ofP2shItems
  rw [if_neg (by simp), List.getLastD_concat, List.dropLast_concat, Output.recognize_eq_classify, hclass,
    Script.pushMany_eq h.length_lt]
  simp only [bind, Except.bind, hredeem, if_true, recognizeAs_operations _ h.length_lt, firstOf_plain h]
  exact if_pos hfits

/-! ### Recognition -/

theorem firstOf_items {hashes : Hashes} {i : Input} (h : i.IsStandard hashes) :
    firstOf (forms hashes) i.items = .ok (some i) := by
  rcases h with hplain | ⟨inner, redeem, rfl, hplain, hfits⟩
  · exact firstOf_append (firstOf_plain hplain)
  · have hredeem := isRedeemable_of_fits hplain hfits
    refine (firstOf_append (firstOf_redeem hplain.items_ne_nil hredeem)).trans (firstOf_made ?_)
    have hlen : ¬(inner.items ++ [redeem.toScript]).length < 2 := by
      have hpos := List.length_pos_iff.mpr hplain.items_ne_nil
      simp only [List.length_append, List.length_singleton]
      omega
    exact (if_neg hlen).trans (ofP2shItems_items hplain hfits)

theorem forms_ends (hashes : Hashes) (items : List Bytes) :
    ∀ form ∈ forms hashes, Ends (IsStandard hashes) IsMisfit (form items) := by
  intro form hform
  rcases List.mem_append.mp hform with hform | hform
  · exact (plainForms_ends items form hform).mono fun i hi => Or.inl hi.1
  · rw [List.mem_singleton.mp hform]
    exact ofTwo_ends (ofP2shItems_ends hashes items)

/-- Recognition meets no fault, and gives a standard input or an unknown one. -/
theorem recognize_ends (hashes : Hashes) (script : Bytes) : recognize hashes script = .ok (classify hashes script) ∧
    ((classify hashes script).IsStandard hashes ∨ classify hashes script = .unknown script) := by
  obtain ⟨i?, hi, hstandard⟩ := recognizeAs_ends (forms_ends hashes) script
  have hrecognize : recognize hashes script = .ok (i?.getD (.unknown script)) := by
    unfold recognize
    rw [hi]
    rfl
  have hclass : classify hashes script = i?.getD (.unknown script) := by
    rw [classify, hrecognize]
    rfl
  rw [hrecognize, hclass]
  refine ⟨rfl, ?_⟩
  cases i? with
  | none => exact Or.inr rfl
  | some i => exact Or.inl (hstandard i rfl)

theorem exists_toScript {hashes : Hashes} {i : Input} (h : i.IsStandard hashes) :
    ∃ script, i.toScript = .ok script ∧ classify hashes script = i := by
  refine ⟨_, h.toScript_eq, ?_⟩
  unfold classify recognize
  rw [recognizeAs_operations (forms hashes) h.length_lt, firstOf_items h]
  rfl

/-- A standard input is recognised from its script. Every script is recognised without a fault, as a standard input or as
    unknown; what was recognised has a script, which is recognised as the same input again. -/
theorem classify_inverts (hashes : Hashes) :
    (∀ i : Input, i.IsStandard hashes → ∃ script, i.toScript = .ok script ∧ classify hashes script = i) ∧
    ∀ script, recognize hashes script = .ok (classify hashes script) ∧
      ((classify hashes script).IsStandard hashes ∨ classify hashes script = .unknown script) ∧
      ∃ again, (classify hashes script).toScript = .ok again ∧ classify hashes again = classify hashes script := by
  refine ⟨fun i h => exists_toScript h, fun script => ?_⟩
  obtain ⟨hrecognize, hends⟩ := recognize_ends hashes script
  refine ⟨hrecognize, hends, ?_⟩
  rcases hends with hstandard | hunknown
  · exact exists_toScript hstandard
  · refine ⟨script, ?_, rfl⟩
    rw [hunknown]
    rfl

/-- The first of two signatures for the script of three keys, with a placeholder for the second. -/
def halfSigned : Input :=
  .p2sh (.multisig ⟨[⟨1, 5, .all⟩], 2, by decide⟩) (.multisig ⟨[.numbered 1, .numbered 2, .numbered 3], 2, by decide⟩)

theorem classify_inverts_halfSigned :
    halfSigned.IsStandard .standard ∧
      ∃ script, halfSigned.toScript = .ok script ∧ classify .standard script = halfSigned := by
  have hsig : (⟨1, 5, .all⟩ : TxSignature).InRange := by decide
  have hstandard : halfSigned.IsStandard .standard := Or.inr ⟨_, _, rfl, List.forall_mem_singleton.mpr hsig, rfl⟩
  exact ⟨hstandard, (classify_inverts .standard).1 _ hstandard⟩

end Input

end SpendScript
