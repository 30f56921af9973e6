import SpendScript.Proofs.StackBound
import SpendScript.Proofs.StandardSpend

/-! # Recognising standard outputs

A script is recognised as a standard output exactly if it is the one that the output is written as
(`Output.classify_exact`). Recognition goes by the items of a script and not by how they are pushed, so that many scripts
look like the same output (`Output.lookalike?`); of these only the one that it is written as is taken for it. -/

namespace SpendScript

/-! ### Tolerated faults -/

namespace Fault
variable {α : Type}

/-- A fault that tells that items do not make up what was looked for. -/
def IsMisfit (f : Fault) : Prop := Output.misfits.any f.faultClass.isA = true

theorem IsMisfit.reported {f : Fault} (h : f.IsMisfit) : f.reported.IsMisfit := by
  unfold Fault.reported
  split
  · exact h
  · rfl

theorem tolerate_eq {classes : List FaultClass} {result : Except Fault α}
    (h : Ends (fun _ => True) (fun f => classes.any f.faultClass.isA = true) result) :
    tolerate classes result = .ok result.toOption := by
  cases result with
  | ok a => rfl
  | error f => exact if_pos h

end Fault

open Fault

theorem Script.tolerate_decode (script : Bytes) :
    tolerate [.truncatedScript] (decode script) = .ok (decode script).toOption := by
  refine tolerate_eq ?_
  unfold decode Listing.complete
  split
  · trivial
  · rfl

theorem PublicKey.make_bytes (key : PublicKey) : make key.bytes = .ok key := dif_pos key.valid

theorem PublicKey.make_ends (bytes : Bytes) : Ends (fun key => key.bytes = bytes) IsMisfit (make bytes) := by
  unfold make
  split <;> rfl

theorem Hash160.make_bytes (hash : Hash160) : make hash.bytes = .ok hash := dif_pos hash.length_bytes

theorem Hash160.make_ends (bytes : Bytes) : Ends (fun hash => hash.bytes = bytes) IsMisfit (make bytes) := by
  unfold make
  split <;> rfl

namespace Multisig

theorem ofItems_ends (items : List Bytes) : Ends (fun _ => True) IsMisfit (ofItems items) := by
  unfold ofItems
  split
  · dsimp only
    split
    · refine (Ends.mapM fun key _ => (PublicKey.make_ends key).mono fun _ _ => trivial).bind fun keys _ => ?_
      unfold ofKeys
      split
      · trivial
      · exact IsMisfit.reported rfl
    · exact IsMisfit.reported rfl
  · rfl

theorem make_keys (o : Multisig) : make (o.keys.map PublicKey.bytes) o.threshold = .ok o := by
  unfold make
  rw [mapM_map_eq_ok fun key _ => key.make_bytes, List.map_id']
  exact dif_pos o.bounds

/-- An output is made again of the items that its script pushes. -/
theorem ofItems_items (o : Multisig) : ofItems o.items = .ok o := by
  obtain ⟨second, rest, hrest⟩ := List.exists_cons_of_ne_nil
    (show o.keys.map PublicKey.bytes ++ [Number.encode o.keys.length] ≠ [] by simp)
  have hkeys : (second :: rest).dropLast = o.keys.map PublicKey.bytes := by rw [← hrest, List.dropLast_concat]
  have hcount : (second :: rest).getLastD [] = Number.encode o.keys.length := by rw [← hrest, List.getLastD_concat]
  unfold ofItems items
  rw [hrest]
  dsimp only
  rw [hkeys, hcount, Number.decode_encode, Number.decode_encode, List.length_map, if_pos rfl, make_keys]

end Multisig

namespace Output

/-! ### Shapes and items -/

section
variable (rest : List Operation)

theorem shape_push {item : Bytes} (h : item.length < 2 ^ 32) :
    shape (Push.operation item :: rest) = Opcode.pushData1 :: shape rest := by
  simp [shape, Push.item?_operation h]

theorem pushedItems_push {item : Bytes} (h : item.length < 2 ^ 32) :
    pushedItems (Push.operation item :: rest) = item :: pushedItems rest := by
  simp [pushedItems, Push.item?_operation h]

theorem shape_code {op : Opcode} (h : Operation.constant? op = none) :
    shape (.code op :: rest) = op :: shape rest := by
  simp [shape, Operation.item?, Operation.opcode, h]

theorem pushedItems_code {op : Opcode} (h : Operation.constant? op = none) :
    pushedItems (.code op :: rest) = pushedItems rest := by
  simp [pushedItems, Operation.item?, h]

theorem shape_pushes {items : List Bytes} (h : ∀ item ∈ items, item.length < 2 ^ 32) :
    shape (items.map Push.operation ++ rest) = List.replicate items.length Opcode.pushData1 ++ shape rest := by
  induction items with
  | nil => rfl
  | cons item items ih =>
    rw [List.map_cons, List.cons_append, shape_push _ (h item List.mem_cons_self),
      ih fun i hi => h i (List.mem_cons_of_mem _ hi)]
    rfl

theorem pushedItems_pushes {items : List Bytes} (h : ∀ item ∈ items, item.length < 2 ^ 32) :
    pushedItems (items.map Push.operation ++ rest) = items ++ pushedItems rest := by
  rw [pushedItems, List.filterMap_append, filterMap_operations h]
  rfl

end

theorem ofOps_ends (ops : List Operation) : Ends (fun _ => True) IsMisfit (ofOps ops) := by
  unfold ofOps
  dsimp only
  split
  · exact (Hash160.make_ends _).map fun _ _ => trivial
  · split
    · exact (Hash160.make_ends _).map fun _ _ => trivial
    · split
      · exact (PublicKey.make_ends _).map fun _ _ => trivial
      · split
        · exact (Multisig.ofItems_ends _).map fun _ _ => trivial
        · rfl

/-- The operations that a standard output is written as. -/
def ops : Output → List Operation
  | p2pkh hash => p2pkhOps hash
  | p2sh hash => [.code Opcode.opHash160, Push.operation hash.bytes, .code Opcode.opEqual]
  | p2pk key => p2pkOps key
  | multisig m => m.ops
  | unknown _ => []

/-- The forms other than unknown. -/
def isStandard : Output → Bool
  | unknown _ => false
  | _ => true

theorem toScript_eq {o : Output} (h : o.isStandard = true) : o.toScript = Script.ofOps o.ops := by
  cases o with
  | p2pkh hash => exact toScript_p2pkh hash
  | p2sh hash =>
    show [Opcode.opHash160] ++ Push.encode hash.bytes ++ [Opcode.opEqual] =
      [Opcode.opHash160] ++ ((Push.operation hash.bytes).toBytes ++ Script.ofOps [.code Opcode.opEqual])
    rw [Push.toBytes_operation hash.length_lt]
    rfl
  | p2pk key => exact toScript_p2pk key
  | multisig m => exact m.toScript_multisig
  | unknown script => cases h

theorem isStandard_of_isRedeemable {o : Output} (h : o.isRedeemable = true) : o.isStandard = true := by
  cases o with
  | p2pkh | p2pk | multisig => rfl
  | p2sh | unknown => cases h

theorem isStraight_ops {o : Output} (h : o.isRedeemable = true) : IsStraight o.ops := by
  cases o with
  | p2pkh hash => exact isStraight_p2pkhOps hash
  | p2pk key => exact isStraight_p2pkOps key
  | multisig m => exact m.isStraight_ops
  | p2sh | unknown => cases h

theorem isDistinct_ops (o : Output) : ∀ op ∈ o.ops, op.isDistinct = true := by
  cases o with
  | p2pkh hash => exact (isStraight_p2pkhOps hash).distinct
  | p2sh hash =>
    simp only [ops, List.mem_cons, List.not_mem_nil, or_false]
    rintro op (rfl | rfl | rfl)
    · rfl
    · exact Push.isDistinct_operation hash.length_lt
    · rfl
  | p2pk key => exact (isStraight_p2pkOps key).distinct
  | multisig m => exact m.isStraight_ops.distinct
  | unknown script => exact fun op hop => nomatch hop

theorem decode_toScript {o : Output} (h : o.isStandard = true) : Script.decode o.toScript = .ok o.ops := by
  rw [toScript_eq h]
  exact Script.decode_ofOps o.isDistinct_ops

theorem shape_multisig (m : Multisig) :
    shape m.ops = List.replicate (m.keys.length + 2) Opcode.pushData1 ++ [Opcode.opCheckMultiSig] := by
  have hlen : m.items.length = m.keys.length + 2 := by simp [Multisig.items]
  rw [Multisig.ops, shape_pushes _ m.length_item_lt, hlen]
  rfl

theorem pushedItems_multisig (m : Multisig) : pushedItems m.ops = m.items := by
  rw [Multisig.ops, pushedItems_pushes _ m.length_item_lt]
  exact List.append_nil _

/-- The operations that a standard output is written as look like that output. -/
theorem ofOps_ops {o : Output} (h : o.isStandard = true) : ofOps o.ops = .ok o := by
  cases o with
  | p2pkh hash =>
    have hshape : shape (p2pkhOps hash) = p2pkhShape := by
      rw [p2pkhOps, shape_code _ rfl, shape_code _ rfl, shape_push _ hash.length_lt]
      rfl
    have hitems : pushedItems (p2pkhOps hash) = [hash.bytes] := by
      rw [p2pkhOps, pushedItems_code _ rfl, pushedItems_code _ rfl, pushedItems_push _ hash.length_lt]
      rfl
    unfold ofOps ops
    dsimp only
    rw [if_pos hshape, hitems, List.headD_cons, hash.make_bytes]
    rfl
  | p2sh hash =>
    have hshape : shape (p2sh hash).ops = p2shShape := by
      rw [ops, shape_code _ rfl, shape_push _ hash.length_lt]
      rfl
    have hitems : pushedItems (p2sh hash).ops = [hash.bytes] := by
      rw [ops, pushedItems_code _ rfl, pushedItems_push _ hash.length_lt]
      rfl
    unfold ofOps
    dsimp only
    rw [hshape, hitems, if_neg (by decide), if_pos rfl, List.headD_cons, hash.make_bytes]
    rfl
  | p2pk key =>
    have hshape : shape (p2pkOps key) = p2pkShape := by
      rw [p2pkOps, shape_push _ key.length_lt]
      rfl
    have hitems : pushedItems (p2pkOps key) = [key.bytes] := by
      rw [p2pkOps, pushedItems_push _ key.length_lt]
      rfl
    unfold ofOps ops
    dsimp only
    rw [hshape, hitems, if_neg (by decide), if_neg (by decide), if_pos rfl, List.headD_cons, key.make_bytes]
    rfl
  | multisig m =>
    have hne : ∀ other : List Opcode, other.getLast? ≠ some Opcode.opCheckMultiSig → shape m.ops ≠ other := by
      rintro other hlast rfl
      rw [shape_multisig, List.getLast?_concat] at hlast
      exact hlast rfl
    have hmultisig : isMultisigShape (shape m.ops) = true := by
      have hpos : 1 ≤ m.keys.length := Nat.le_trans m.bounds.1 m.bounds.2.1
      simp [isMultisigShape, shape_multisig]
      omega
    unfold ofOps ops
    dsimp only
    rw [if_neg (hne _ (by decide)), if_neg (hne _ (by decide)), if_neg (hne _ (by decide)), if_pos hmultisig,
      pushedItems_multisig, m.ofItems_items]
    rfl
  | unknown script => cases h

/-! ### Recognition -/

/-- The output that a script looks like by its items, however these are pushed. -/
def lookalike? (script : Bytes) : Option Output := (Script.decode script).toOption.bind fun ops => (ofOps ops).toOption

/-- Recognition meets no fault: it gives the output that a script looks like if the script is the one of that output. -/
theorem recognize_eq (script : Bytes) :
    recognize script = .ok (((lookalike? script).filter fun o => o.toScript = script).getD (.unknown script)) := by
  unfold recognize
  rw [Script.tolerate_decode]
  cases hops : (Script.decode script).toOption with
  | none =>
    have hlook : lookalike? script = none := by rw [lookalike?, hops, Option.bind_none]
    rw [hlook]
    rfl
  | some ops =>
    have hlook : lookalike? script = (ofOps ops).toOption := by rw [lookalike?, hops, Option.bind_some]
    have hmade : tolerate misfits (ofOps ops) = .ok (ofOps ops).toOption := tolerate_eq (ofOps_ends ops)
    show (tolerate misfits (ofOps ops) >>= _) = _
    rw [hlook, hmade]
    cases (ofOps ops).toOption with
    | none => rfl
    | some o =>
      show Except.ok (if o.toScript = script then o else .unknown script) = _
      by_cases hsame : o.toScript = script <;> simp [hsame, Option.filter_some]

theorem recognize_eq_classify (script : Bytes) : recognize script = .ok (classify script) := by
  rw [classify, recognize_eq]
  rfl

theorem classify_eq (script : Bytes) :
    classify script = ((lookalike? script).filter fun o => o.toScript = script).getD (.unknown script) :=
  Except.ok.inj ((recognize_eq_classify script).symm.trans (recognize_eq script))

theorem toScript_classify (script : Bytes) : (classify script).toScript = script := by
  rw [classify_eq]
  cases hfit : (lookalike? script).filter fun o => o.toScript = script with
  | none => rfl
  | some o =>
    have hsame := (Option.filter_eq_some_iff.mp hfit).2
    exact of_decide_eq_true hsame

theorem classify_toScript {o : Output} (h : o.isStandard = true) : classify o.toScript = o := by
  have hlook : lookalike? o.toScript = some o := by
    rw [lookalike?, decode_toScript h]
    show (ofOps o.ops).toOption = some o
    rw [ofOps_ops h]
    rfl
  rw [classify_eq, hlook, Option.filter_some, if_pos (decide_eq_true rfl)]
  rfl

theorem isP2SH_iff (script : Bytes) : Script.isP2SH script = true ↔ ∃ hash, classify script = .p2sh hash := by
  have hwritten : ∀ hash : Hash160, (p2sh hash).toScript = Script.p2sh hash.bytes := by
    intro hash
    have hlen := hash.length_bytes
    have hpush : Push.encode hash.bytes = _ := Push.encode_of_length (by omega) (by omega)
    rw [toScript, hpush, hlen]
    rfl
  constructor
  · intro h
    obtain ⟨hash, hlen, rfl⟩ := Script.exists_eq_p2sh h
    exact ⟨⟨hash, hlen⟩, (congrArg classify (hwritten ⟨hash, hlen⟩).symm).trans (classify_toScript rfl)⟩
  · rintro ⟨hash, hclass⟩
    have hscript := toScript_classify script
    rw [hclass, hwritten] at hscript
    rw [← hscript]
    exact isP2SH_p2sh hash.length_bytes

/-- Every script is recognised without a fault. It is recognised as a standard output exactly if it is the script of that
    output, and as unknown if it is the script of none. So standard outputs are told apart by their scripts, what was
    recognised is written as the script that it was recognised from, and the outputs to the hash of a script are those
    that can be told by their bytes. -/
theorem classify_exact :
    (∀ script, recognize script = .ok (classify script)) ∧
    (∀ (script : Bytes) (o : Output), o.isStandard = true → (classify script = o ↔ script = o.toScript)) ∧
    (∀ script, (∀ o : Output, o.isStandard = true → script ≠ o.toScript) → classify script = .unknown script) ∧
    (∀ o o' : Output, o.isStandard = true → o'.isStandard = true → o.toScript = o'.toScript → o = o') ∧
    (∀ script, (classify script).toScript = script) ∧
    ∀ script, Script.isP2SH script = true ↔ ∃ hash, classify script = .p2sh hash := by
  refine ⟨recognize_eq_classify, fun script o h => ?_, fun script h => ?_, fun o o' h h' heq => ?_, toScript_classify,
    isP2SH_iff⟩
  · constructor
    · rintro rfl
      exact (toScript_classify script).symm
    · rintro rfl
      exact classify_toScript h
  · have hwritten := (toScript_classify script).symm
    cases hclass : classify script with
    | unknown other =>
      rw [hclass] at hwritten
      rw [hwritten]
      rfl
    | p2pkh | p2sh | p2pk | multisig => exact absurd hwritten (h _ (by rw [hclass]; rfl))
  · rw [← classify_toScript h, heq, classify_toScript h']

/-- One of two keys; the hash of a script pushed in the shortest way and in a longer one; and no script at all. -/
theorem classify_exact_pushes :
    (multisig ⟨[.numbered 1, .numbered 2], 1, by decide⟩).isStandard = true ∧
    classify (multisig ⟨[.numbered 1, .numbered 2], 1, by decide⟩).toScript =
      multisig ⟨[.numbered 1, .numbered 2], 1, by decide⟩ ∧
    (∃ hash, classify ([0xa9, 0x14] ++ List.replicate 20 7 ++ [0x87]) = .p2sh hash) ∧
    (¬∃ hash, classify ([0xa9, 0x4c, 0x14] ++ List.replicate 20 7 ++ [0x87]) = .p2sh hash) ∧
    classify [] = .unknown [] := by
  obtain ⟨-, hexact, hunknown, -, -, hp2sh⟩ := classify_exact
  refine ⟨rfl, (hexact _ _ rfl).mpr rfl, (hp2sh _).mp rfl, fun h => ?_, hunknown [] fun o ho hnil => ?_⟩
  · cases (hp2sh _).mpr h
  · cases o <;> simp [toScript, isStandard] at hnil ho

end Output

end SpendScript
