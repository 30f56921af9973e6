import SpendScript.Proofs.Numbers
import SpendScript.Proofs.StraightSpend
import SpendScript.Proofs.WrittenChecks
import SpendScript.Template.Input

/-! # Spending standard outputs

An output to keys is spent by the input of its form exactly if the signatures verify (`evaluate_standard_iff`). This
holds under all flags: what a flag makes a fault of is otherwise a false result, the pushes of a standard input are the
shortest ones, and one item is left. -/

namespace SpendScript

open Machine

/-! ### Keys and signatures as items -/

theorem PublicKey.length_le (key : PublicKey) : key.bytes.length ≤ 65 := by
  rcases key.length_bytes with h | h <;> omega

theorem PublicKey.length_lt (key : PublicKey) : key.bytes.length < 2 ^ 32 :=
  Nat.lt_of_le_of_lt key.length_le (by decide)

theorem Hash160.length_lt (hash : Hash160) : hash.bytes.length < 2 ^ 32 := by
  rw [hash.length_bytes]
  decide

theorem PublicKey.head?_ne (key : PublicKey) : key.bytes.head? ≠ some 0x30 := by
  intro h
  have hvalid := key.valid
  unfold isPublicKey at hvalid
  rw [h] at hvalid
  simp at hvalid

section
variable {sig : TxSignature} (h : sig.InRange)
include h

theorem TxSignature.length_lt : sig.bytes.length < 2 ^ 32 := Nat.lt_of_le_of_lt (length_bytes h).2 (by decide)

/-- A signature and a key begin with different bytes, so that their pushes differ. -/
theorem operation_bytes_ne (key : PublicKey) : Push.operation sig.bytes ≠ Push.operation key.bytes := by
  intro heq
  have hsame := Push.operation_inj (TxSignature.length_lt h) key.length_lt heq
  exact key.head?_ne (hsame ▸ TxSignature.head?_bytes)

theorem operation_bytes_ne_code {op : Opcode} (hop : Operation.constant? op = none) :
    Push.operation sig.bytes ≠ .code op := by
  intro heq
  have hitem := Push.item?_operation (TxSignature.length_lt h)
  rw [heq] at hitem
  exact absurd (hop.symm.trans hitem) (Option.some_ne_none _).symm

end

/-! ### Outputs to one key -/

namespace Output

def p2pkOps (key : PublicKey) : List Operation := [Push.operation key.bytes, .code Opcode.opCheckSig]

def p2pkhOps (hash : Hash160) : List Operation :=
  [.code Opcode.opDup, .code Opcode.opHash160, Push.operation hash.bytes, .code Opcode.opEqualVerify,
    .code Opcode.opCheckSig]

theorem toScript_p2pk (key : PublicKey) : (p2pk key).toScript = Script.ofOps (p2pkOps key) := by
  show Push.encode key.bytes ++ [Opcode.opCheckSig] =
    (Push.operation key.bytes).toBytes ++ Script.ofOps [.code Opcode.opCheckSig]
  rw [Push.toBytes_operation key.length_lt]
  rfl

theorem toScript_p2pkh (hash : Hash160) : (p2pkh hash).toScript = Script.ofOps (p2pkhOps hash) := by
  show [Opcode.opDup, Opcode.opHash160] ++ Push.encode hash.bytes ++ [Opcode.opEqualVerify, Opcode.opCheckSig] =
    [Opcode.opDup] ++ ([Opcode.opHash160] ++ ((Push.operation hash.bytes).toBytes ++
      Script.ofOps [.code Opcode.opEqualVerify, .code Opcode.opCheckSig]))
  rw [Push.toBytes_operation hash.length_lt]
  rfl

theorem isStraight_p2pkOps (key : PublicKey) : IsStraight (p2pkOps key) := by
  refine isStraight_of_isSmall ?_ (Nat.le_of_ble_eq_true rfl) (Script.isP2SH_operation key.length_lt _)
  simp only [p2pkOps, List.mem_cons, List.not_mem_nil, or_false]
  rintro o (rfl | rfl)
  · exact Push.isSmall_operation key.length_le
  · exact ⟨rfl, rfl, by decide⟩

theorem isStraight_p2pkhOps (hash : Hash160) : IsStraight (p2pkhOps hash) := by
  have hhash : hash.bytes.length ≤ 65 := Nat.le_trans (Nat.le_of_eq hash.length_bytes) (by decide)
  refine isStraight_of_isSmall ?_ (Nat.le_of_ble_eq_true rfl) (Script.isP2SH_ofOps (by decide) _)
  simp only [p2pkhOps, List.mem_cons, List.not_mem_nil, or_false]
  rintro o (rfl | rfl | rfl | rfl | rfl)
  case inr.inr.inl => exact Push.isSmall_operation hhash
  all_goals exact ⟨rfl, rfl, by decide⟩

end Output

section
variable {code : Bytes} {count : Int} {m : Machine}

theorem At.checkSig {sig : TxSignature} {key : PublicKey} (h : At code count [key.bytes, sig.bytes] m)
    (hcount : count + 1 ≤ 201) (hrange : sig.InRange) (flags : Flags) (check : SigCheck) (hashes : Hashes) (s : List Bytes) :
    (∃ m', m.act ⟨{ flags }, some check, hashes⟩ (.code Opcode.opCheckSig) = .ok m' ∧ m'.stack = s ∧
        Number.isTrue (s.headD []) = true) ↔
      s = [[1]] ∧ sig.isCanonical = true ∧ check (Script.without (Push.operation sig.bytes) code) key.bytes sig = true := by
  have hbump : m.opCount + 1 ≤ (Env.mk { flags } (some check) hashes).limits.opsPerScript := h.bump hcount
  have hcode : { m.advance (.code Opcode.opCheckSig) with opCount := m.opCount + 1 }.code = code :=
    (code_advance m _).trans h.code
  have hact : ∀ m', m.act ⟨{ flags }, some check, hashes⟩ (.code Opcode.opCheckSig) = .ok m' ↔ _ := fun m' =>
    act_code_eq_ok rfl rfl rfl
  have hiff := checkSig_bytes_iff hrange (m := { m.advance (.code Opcode.opCheckSig) with opCount := m.opCount + 1 }) h.stack
    flags check hashes s
  rw [hcode] at hiff
  simp only [hact, hbump, true_and]
  exact hiff

end

section
variable {flags : Flags} {check : SigCheck} {hashes : Hashes} {sig : TxSignature} (h : sig.InRange)
include h

theorem without_p2pk (key : PublicKey) :
    Script.without (Push.operation sig.bytes) (Output.p2pk key).toScript = (Output.p2pk key).toScript := by
  refine Script.without_of_not_mem ?_
  rw [Output.toScript_p2pk, (Script.listing_of_decode (Script.decode_ofOps (Output.isStraight_p2pkOps key).distinct)).1]
  simp only [Output.p2pkOps, List.mem_cons, List.not_mem_nil, or_false, not_or]
  exact ⟨operation_bytes_ne h key, operation_bytes_ne_code h rfl⟩

theorem evaluate_p2pk_iff (key : PublicKey) (final : List Bytes) :
    (∃ calls, evaluate ⟨{ flags }, some check, hashes⟩ (Script.ofOps ([sig.bytes].map Push.operation))
        (Output.p2pk key).toScript =
        .ok ⟨none, final, calls⟩) ↔
      final = [[1]] ∧ sig.isCanonical = true ∧ check (Output.p2pk key).toScript key.bytes sig = true := by
  have hkey : key.bytes.length ≤ 520 := Nat.le_trans key.length_le (by decide)
  have hsig := (TxSignature.length_bytes h).2
  have hwithout := without_p2pk h key
  rw [Output.toScript_p2pk] at hwithout ⊢
  refine evaluate_operations_iff (List.forall_mem_singleton.mpr (by omega)) (Nat.le_of_ble_eq_true rfl)
    (Output.isStraight_p2pkOps key) (fun s => ?_) final
  obtain ⟨m₁, hpush, hat⟩ := (at_begin (Script.ofOps (Output.p2pkOps key)) [sig.bytes]).push flags (some check) hkey
    (Nat.le_of_ble_eq_true rfl)
  have hrun : (Output.p2pkOps key).foldlM (act ⟨{ flags }, some check, hashes⟩)
      (Machine.begin { stack := [sig.bytes] } (Script.ofOps (Output.p2pkOps key))) =
        m₁.act ⟨{ flags }, some check, hashes⟩ (.code Opcode.opCheckSig) :=
    (foldlM_act_cons hpush _).trans (foldlM_act_singleton _ _ _)
  have hiff := hat.checkSig (by decide) h flags check hashes s
  rw [hwithout, ← hrun] at hiff
  exact hiff

theorem evaluate_p2pkh_iff (key : PublicKey) (hash : Hash160) (final : List Bytes) :
    (∃ calls, evaluate ⟨{ flags }, some check, hashes⟩ (Script.ofOps ([sig.bytes, key.bytes].map Push.operation))
        (Output.p2pkh hash).toScript = .ok ⟨none, final, calls⟩) ↔
      final = [[1]] ∧ (hashes.hash160 key.bytes).bytes = hash.bytes ∧ sig.isCanonical = true ∧
        check (Script.without (Push.operation sig.bytes) (Output.p2pkh hash).toScript) key.bytes sig = true := by
  have hkey := key.length_le
  have hhash : hash.bytes.length ≤ 520 := Nat.le_trans (Nat.le_of_eq hash.length_bytes) (by decide)
  have hsig := (TxSignature.length_bytes h).2
  have hitems : ∀ item ∈ [sig.bytes, key.bytes], item.length ≤ 520 := by
    simp only [List.mem_cons, List.not_mem_nil, or_false]
    rintro item (rfl | rfl) <;> omega
  rw [Output.toScript_p2pkh]
  refine evaluate_operations_iff hitems (Nat.le_of_ble_eq_true rfl) (Output.isStraight_p2pkhOps hash) (fun s => ?_) final
  obtain ⟨m₁, hdup, hat₁⟩ := (at_begin (Script.ofOps (Output.p2pkhOps hash)) [key.bytes, sig.bytes]).dup flags
    (some check) (by decide) (Nat.le_of_ble_eq_true rfl)
  obtain ⟨m₂, hhash160, hat₂⟩ := hat₁.hash160 flags (some check) (by decide)
  obtain ⟨m₃, hpush, hat₃⟩ := hat₂.push flags (some check) hhash (Nat.le_of_ble_eq_true rfl)
  have hrun : (Output.p2pkhOps hash).foldlM (act ⟨{ flags }, some check, hashes⟩)
      (Machine.begin { stack := [sig.bytes, key.bytes].reverse } (Script.ofOps (Output.p2pkhOps hash))) =
        [.code Opcode.opEqualVerify, .code Opcode.opCheckSig].foldlM (act ⟨{ flags }, some check, hashes⟩) m₃ :=
    (foldlM_act_cons hdup _).trans ((foldlM_act_cons hhash160 _).trans (foldlM_act_cons hpush _))
  rw [hrun]
  -- the check is reached only if the hashes are equal, so that the equality comes before the signature both ways
  constructor
  · rintro ⟨m, hm, hstack, htrue⟩
    obtain ⟨m₄, hverify, hcheck⟩ := bind_eq_ok.mp ((List.foldlM_cons ..).symm.trans hm)
    rw [foldlM_act_singleton] at hcheck
    have hsame := hat₃.eq_of_equalVerify hverify
    rw [hsame] at hat₃
    obtain ⟨m₄', hverify', hat₄⟩ := hat₃.equalVerify flags (some check) (by decide) (Nat.le_of_ble_eq_true rfl)
    cases hverify.symm.trans hverify'
    obtain ⟨hs, hsigned⟩ := (hat₄.checkSig (by decide) h flags check hashes s).mp ⟨m, hcheck, hstack, htrue⟩
    exact ⟨hs, hsame.symm, hsigned⟩
  · rintro ⟨hs, hsame, hsigned⟩
    rw [hsame] at hat₃
    obtain ⟨m₄, hverify, hat₄⟩ := hat₃.equalVerify flags (some check) (by decide) (Nat.le_of_ble_eq_true rfl)
    rw [foldlM_act_cons hverify, foldlM_act_singleton]
    exact (hat₄.checkSig (by decide) h flags check hashes s).mpr ⟨hs, hsigned⟩

end

/-! ### Outputs to several keys -/

theorem length_encode_small {n : Nat} (h : n ≤ 16) : (Number.encode n).length ≤ 1 := by
  have hwidth : Number.width n ≤ (5 + 8) / 8 := Number.width_le (by omega)
  rw [Number.length_encode]
  exact hwidth

theorem number_encode_small (flags : Flags) {n : Nat} (h : n ≤ 16) :
    Limits.number { flags } (Number.encode n) = .ok (n : Int) := by
  have hlen := length_encode_small h
  refine number_eq_ok.mpr ⟨?_, fun _ => Number.isMinimal_encode n, (Number.decode_encode n).symm⟩
  show ((Number.encode n).length : Int) ≤ 4
  omega

namespace Multisig

/-- The items that the script of an output to several keys pushes. -/
def items (o : Multisig) : List Bytes :=
  Number.encode o.threshold :: (o.keys.map PublicKey.bytes ++ [Number.encode o.keys.length])

def ops (o : Multisig) : List Operation := o.items.map Push.operation ++ [.code Opcode.opCheckMultiSig]

variable (o : Multisig)

theorem mem_items {item : Bytes} : item ∈ o.items ↔
    item = Number.encode o.threshold ∨ (∃ key ∈ o.keys, key.bytes = item) ∨ item = Number.encode o.keys.length := by
  simp only [items, List.mem_cons, List.mem_append, List.mem_map, List.not_mem_nil, or_false]

theorem length_item_le : ∀ item ∈ o.items, item.length ≤ 65 := by
  obtain ⟨-, hthreshold, hkeys⟩ := o.bounds
  intro item hitem
  rcases o.mem_items.mp hitem with rfl | ⟨key, -, rfl⟩ | rfl
  · exact Nat.le_trans (length_encode_small (Nat.le_trans hthreshold hkeys)) (by decide)
  · exact key.length_le
  · exact Nat.le_trans (length_encode_small hkeys) (by decide)

theorem length_item_lt : ∀ item ∈ o.items, item.length < 2 ^ 32 := fun item hitem =>
  Nat.lt_of_le_of_lt (o.length_item_le item hitem) (by decide)

theorem toScript_multisig : (Output.multisig o).toScript = Script.ofOps o.ops := by
  have hsplit : Script.ofOps o.ops = Script.ofOps (o.items.map Push.operation) ++ [Opcode.opCheckMultiSig] :=
    List.flatMap_append
  rw [hsplit, Script.ofOps_operations o.length_item_lt]
  simp only [Output.toScript, items, List.flatMap_cons, List.flatMap_append, List.flatMap_nil, List.append_nil,
    List.flatMap_map, List.append_assoc]

theorem isStraight_ops : IsStraight o.ops := by
  have hkeys : o.keys.length ≤ 16 := o.bounds.2.2
  have hlen : o.ops.length = o.keys.length + 3 := by
    simp only [ops, items, List.length_append, List.length_map, List.length_cons, List.length_nil]
  have hfirst := o.length_item_lt (Number.encode o.threshold) List.mem_cons_self
  refine isStraight_of_isSmall (fun p hp => ?_) (by omega) (Script.isP2SH_operation hfirst _)
  rcases List.mem_append.mp hp with hp | hp
  · obtain ⟨item, hitem, rfl⟩ := List.mem_map.mp hp
    exact Push.isSmall_operation (o.length_item_le item hitem)
  · cases List.mem_singleton.mp hp
    exact ⟨rfl, rfl, by decide⟩

/-- The script holds no push of an item that is none of its own. -/
theorem without_multisig {item : Bytes} (hlen : item.length < 2 ^ 32) (hitem : item ∉ o.items) :
    Script.without (Push.operation item) (Output.multisig o).toScript = (Output.multisig o).toScript := by
  refine Script.without_of_not_mem fun hmem => ?_
  rw [o.toScript_multisig, (Script.listing_of_decode (Script.decode_ofOps o.isStraight_ops.distinct)).1] at hmem
  rcases List.mem_append.mp hmem with hmem | hmem
  · obtain ⟨own, hown, heq⟩ := List.mem_map.mp hmem
    exact hitem (Push.operation_inj (o.length_item_lt own hown) hlen heq ▸ hown)
  · have hpush := Push.item?_operation hlen
    rw [List.mem_singleton.mp hmem] at hpush
    cases hpush

theorem nil_not_mem_items : [] ∉ o.items := by
  have hencode : ∀ n : Nat, 1 ≤ n → Number.encode n ≠ [] := by
    intro n hn hnil
    have hpos := Number.width_pos (n := n) (by omega)
    rw [← Number.length_encode, hnil] at hpos
    exact Nat.lt_irrefl 0 hpos
  obtain ⟨hlow, hthreshold, -⟩ := o.bounds
  intro hmem
  rcases o.mem_items.mp hmem with h | ⟨key, -, h⟩ | h
  · exact hencode _ hlow h.symm
  · have hkey := key.length_bytes
    rw [h] at hkey
    simp at hkey
  · exact hencode _ (Nat.le_trans hlow hthreshold) h.symm

theorem bytes_not_mem_items {sig : TxSignature} (h : sig.InRange) : sig.bytes ∉ o.items := by
  obtain ⟨-, hthreshold, hkeys⟩ := o.bounds
  have hsig := (TxSignature.length_bytes h).1
  intro hmem
  rcases o.mem_items.mp hmem with heq | ⟨key, -, heq⟩ | heq
  · have hlen := length_encode_small (Nat.le_trans hthreshold hkeys)
    rw [← heq] at hlen
    omega
  · exact key.head?_ne (heq ▸ TxSignature.head?_bytes)
  · have hlen := length_encode_small hkeys
    rw [← heq] at hlen
    omega

end Multisig

theorem foldlM_cleanCode {sigs : List Bytes} {code : Bytes} (h : ∀ sig ∈ sigs, Limits.cleanCode sig code = .ok code) :
    sigs.foldlM (fun code sig => Limits.cleanCode sig code) code = .ok code := by
  induction sigs with
  | nil => rfl
  | cons sig sigs ih =>
    rw [List.foldlM_cons, h sig List.mem_cons_self]
    exact ih fun sig hsig => h sig (List.mem_cons_of_mem _ hsig)

section
variable {flags : Flags} {check : SigCheck} {hashes : Hashes} {code : Bytes} {count : Int} {keyItem sigItem : Bytes}
  {sigs : List TxSignature} {keys : List PublicKey} {missing : Nat} {m : Machine} {s : List Bytes}

/-- A multiple check of written signatures, some of which may be missing. -/
theorem At.checkMultiSig (h : At code count (operands keyItem sigItem [] (keys.map PublicKey.bytes).reverse
      (List.replicate missing [] ++ (sigs.map TxSignature.bytes).reverse) []) m)
    (hkeyCount : Limits.number { flags } keyItem = .ok (keys.length : Int))
    (hsigCount : Limits.number { flags } sigItem = .ok ((missing + sigs.length : Nat) : Int))
    (hkeys : keys.length ≤ 16) (hsigs : missing + sigs.length ≤ keys.length) (hcount : count ≤ 100)
    (hclean : ∀ item ∈ List.replicate missing [] ++ (sigs.map TxSignature.bytes).reverse,
      Limits.cleanCode item code = .ok code)
    (hrange : ∀ sig ∈ sigs, sig.InRange) :
    (∃ m', m.act ⟨{ flags }, some check, hashes⟩ (.code Opcode.opCheckMultiSig) = .ok m' ∧ m'.stack = s ∧
        Number.isTrue (s.headD []) = true) ↔
      s = [[1]] ∧ missing = 0 ∧ (∀ sig ∈ sigs, sig.isCanonical = true) ∧
        Assigned (fun sig key => check code key.bytes sig = true) sigs keys := by
  have hbump : m.opCount + 1 ≤ (Env.mk { flags } (some check) hashes).limits.opsPerScript := h.bump (by omega)
  have hcode : { m.advance (.code Opcode.opCheckMultiSig) with opCount := m.opCount + 1 }.code = code :=
    (code_advance m _).trans h.code
  have hfold := foldlM_cleanCode fun sig hsig => hclean sig (List.mem_reverse.mp hsig)
  have hkeyNum : ((keys.map PublicKey.bytes).reverse).length = keys.length := by
    rw [List.length_reverse, List.length_map]
  have hsigNum : (List.replicate missing [] ++ (sigs.map TxSignature.bytes).reverse).length = missing + sigs.length := by
    rw [List.length_append, List.length_replicate, List.length_reverse, List.length_map]
  have hopCount := h.count
  have hmulti : ∀ m', Machine.checkMultiSig ⟨{ flags }, some check, hashes⟩
      { m.advance (.code Opcode.opCheckMultiSig) with opCount := m.opCount + 1 } = .ok m' ↔ _ := fun m' =>
    checkMultiSig_operands h.stack (by rw [hkeyNum]; exact hkeyCount) (by rw [hsigNum]; exact hsigCount)
      (by rw [hkeyNum]; show (keys.length : Int) ≤ 20; omega) (by rw [hkeyNum, hsigNum]; exact hsigs)
      (by rw [hkeyNum]; show m.opCount + 1 + keys.length ≤ (201 : Int); omega)
  rw [hcode] at hmulti
  constructor
  · rintro ⟨m', hact, rfl, htrue⟩
    obtain ⟨-, hperform⟩ := (act_code_eq_ok rfl rfl rfl).mp hact
    obtain ⟨code', good, m₁, hcode', hscan, -, rfl⟩ := (hmulti m').mp hperform
    cases hfold.symm.trans hcode'
    have hgood : good = true := (Number.isTrue_ofBool good).symm.trans htrue
    subst hgood
    exact ⟨rfl, (matchAll_bytes_iff hrange missing).mp ⟨m₁, hscan⟩⟩
  · rintro ⟨rfl, hverifies⟩
    obtain ⟨m₁, hscan⟩ := (matchAll_bytes_iff hrange missing).mpr hverifies
    exact ⟨_, (act_code_eq_ok rfl rfl rfl).mpr ⟨hbump, (hmulti _).mpr ⟨code, true, m₁, hfold, hscan, rfl, rfl⟩⟩, rfl, rfl⟩

end

/-- The items of an input with several signatures, of which some may be missing. -/
def MultisigInput.items (i : MultisigInput) : List Bytes :=
  [] :: (i.signatures.map TxSignature.bytes ++ List.replicate (i.required - i.signatures.length) [])

section
variable {flags : Flags} {check : SigCheck} {hashes : Hashes} {i : MultisigInput} (h : ∀ sig ∈ i.signatures, sig.InRange)
include h

theorem MultisigInput.length_item_le : ∀ item ∈ i.items, item.length ≤ 73 := by
  intro item hitem
  simp only [items, List.mem_cons, List.mem_append, List.mem_map, List.mem_replicate] at hitem
  rcases hitem with rfl | ⟨sig, hsig, rfl⟩ | ⟨-, rfl⟩
  · exact Nat.zero_le _
  · exact (TxSignature.length_bytes (h sig hsig)).2
  · exact Nat.zero_le _

theorem cleanCode_multisig (o : Multisig) {item : Bytes}
    (hitem : item ∈ List.replicate (i.required - i.signatures.length) [] ++ (i.signatures.map TxSignature.bytes).reverse) :
    Limits.cleanCode item (Output.multisig o).toScript = .ok (Output.multisig o).toScript := by
  simp only [List.mem_append, List.mem_replicate, List.mem_reverse, List.mem_map] at hitem
  rcases hitem with ⟨-, rfl⟩ | ⟨sig, hsig, rfl⟩
  · rw [cleanCode_eq (by decide), o.without_multisig (by decide) o.nil_not_mem_items]
  · have hlen := TxSignature.length_lt (h sig hsig)
    rw [cleanCode_eq hlen, o.without_multisig hlen (o.bytes_not_mem_items (h sig hsig))]

theorem evaluate_multisig_iff (o : Multisig) (hsame : i.required = o.threshold) (final : List Bytes) :
    (∃ calls, evaluate ⟨{ flags }, some check, hashes⟩ (Script.ofOps (i.items.map Push.operation))
        (Output.multisig o).toScript =
        .ok ⟨none, final, calls⟩) ↔
      final = [[1]] ∧ i.signatures.length = o.threshold ∧ (∀ sig ∈ i.signatures, sig.isCanonical = true) ∧
        Assigned (fun sig key => check (Output.multisig o).toScript key.bytes sig = true) i.signatures o.keys := by
  obtain ⟨-, hthreshold, hkeys⟩ := o.bounds
  obtain ⟨-, -, hsigs⟩ := i.bounds
  have hkeys : o.keys.length ≤ 16 := hkeys
  have hclean : ∀ item ∈ List.replicate (i.required - i.signatures.length) [] ++
      (i.signatures.map TxSignature.bytes).reverse,
      Limits.cleanCode item (Output.multisig o).toScript = .ok (Output.multisig o).toScript := fun item hitem =>
    cleanCode_multisig h o hitem
  have hcount : i.items.length = i.required + 1 := by
    simp only [MultisigInput.items, List.length_cons, List.length_append, List.length_map, List.length_replicate]
    omega
  have hmissing : i.required - i.signatures.length = 0 ↔ i.signatures.length = o.threshold := by omega
  have hsum : i.required - i.signatures.length + i.signatures.length = o.threshold := by omega
  have hpushed : o.items.length = o.keys.length + 2 := by
    simp only [Multisig.items, List.length_cons, List.length_append, List.length_map, List.length_nil]
  rw [o.toScript_multisig] at hclean ⊢
  rw [← hmissing]
  refine evaluate_operations_iff (fun item hitem => Nat.le_trans (MultisigInput.length_item_le h item hitem) (by decide))
    (by omega) o.isStraight_ops (fun s => ?_) final
  have hown : ∀ item ∈ o.items, item.length ≤ 520 := fun item hitem =>
    Nat.le_trans (o.length_item_le item hitem) (by decide)
  have hroom : i.items.reverse.length + o.items.length ≤ 1000 := by
    rw [List.length_reverse]
    omega
  obtain ⟨m₁, hpushes, hat⟩ := (at_begin (Script.ofOps o.ops) i.items.reverse).pushes flags (some check) hown hroom
  -- the placeholders lie above the signatures, and the count of keys above all
  have hstack : o.items.reverse ++ i.items.reverse = operands (Number.encode o.keys.length) (Number.encode o.threshold) []
      (o.keys.map PublicKey.bytes).reverse
      (List.replicate (i.required - i.signatures.length) [] ++ (i.signatures.map TxSignature.bytes).reverse) [] := by
    simp [operands, Multisig.items, MultisigInput.items]
  rw [hstack] at hat
  have hrun : o.ops.foldlM (act ⟨{ flags }, some check, hashes⟩)
        (Machine.begin { stack := i.items.reverse } (Script.ofOps o.ops)) =
      m₁.act ⟨{ flags }, some check, hashes⟩ (.code Opcode.opCheckMultiSig) :=
    (foldlM_act_append hpushes _).trans (foldlM_act_singleton _ _ _)
  rw [hrun]
  exact hat.checkMultiSig (number_encode_small flags hkeys)
    (by rw [hsum]; exact number_encode_small flags (Nat.le_trans hthreshold hkeys)) hkeys (by omega) (by decide) hclean h

end

/-! ### Inputs -/

theorem toScript_p2pkInput {sig : TxSignature} (h : sig.InRange) :
    (Input.p2pk sig).toScript = .ok (Script.ofOps ([sig.bytes].map Push.operation)) := by
  unfold Input.toScript
  rw [TxSignature.toBytes_eq h]
  exact Script.pushMany_eq (List.forall_mem_singleton.mpr (TxSignature.length_lt h))

theorem toScript_p2pkhInput {sig : TxSignature} (h : sig.InRange) (key : PublicKey) :
    (Input.p2pkh sig key).toScript = .ok (Script.ofOps ([sig.bytes, key.bytes].map Push.operation)) := by
  unfold Input.toScript
  rw [TxSignature.toBytes_eq h]
  refine Script.pushMany_eq (List.forall_mem_cons.mpr ⟨TxSignature.length_lt h, ?_⟩)
  exact List.forall_mem_singleton.mpr key.length_lt

theorem mapM_toBytes {sigs : List TxSignature} (h : ∀ sig ∈ sigs, sig.InRange) :
    sigs.mapM TxSignature.toBytes = .ok (sigs.map TxSignature.bytes) := by
  induction sigs with
  | nil => rfl
  | cons sig sigs ih =>
    rw [List.mapM_cons, TxSignature.toBytes_eq (h sig List.mem_cons_self),
      ih fun sig hsig => h sig (List.mem_cons_of_mem _ hsig)]
    rfl

theorem toScript_multisigInput {i : MultisigInput} (h : ∀ sig ∈ i.signatures, sig.InRange) :
    (Input.multisig i).toScript = .ok (Script.ofOps (i.items.map Push.operation)) := by
  unfold Input.toScript
  rw [mapM_toBytes h]
  have hlen : ∀ item ∈ i.items, item.length < 2 ^ 32 := fun item hitem =>
    Nat.lt_of_le_of_lt (MultisigInput.length_item_le h item hitem) (by decide)
  exact Script.pushMany_eq hlen

/-! ### Standard spends -/

/-- The inputs of the forms with signatures have scripts, and under all flags these spend the outputs of the same form
    exactly if the signatures are canonical and verify: the signature for the key; the signature for a key with the
    hash, over the script without the pushes of the signature itself; or as many signatures as are asked for, for keys
    in the same order. What is left is one true item. -/
theorem evaluate_standard_iff (flags : Flags) (check : SigCheck) (hashes : Hashes) :
    (∀ (sig : TxSignature) (key : PublicKey), sig.InRange →
      ∃ unlock, (Input.p2pk sig).toScript = .ok unlock ∧ ∀ final,
        (∃ calls, evaluate ⟨{ flags }, some check, hashes⟩ unlock (Output.p2pk key).toScript = .ok ⟨none, final, calls⟩) ↔
          final = [[1]] ∧ sig.isCanonical = true ∧ check (Output.p2pk key).toScript key.bytes sig = true) ∧
    (∀ (sig : TxSignature) (key : PublicKey) (hash : Hash160), sig.InRange →
      ∃ bytes unlock, sig.toBytes = .ok bytes ∧ (Input.p2pkh sig key).toScript = .ok unlock ∧ ∀ final,
        (∃ calls, evaluate ⟨{ flags }, some check, hashes⟩ unlock (Output.p2pkh hash).toScript = .ok ⟨none, final, calls⟩) ↔
          final = [[1]] ∧ (hashes.hash160 key.bytes).bytes = hash.bytes ∧ sig.isCanonical = true ∧
            check (Script.without (Push.operation bytes) (Output.p2pkh hash).toScript) key.bytes sig = true) ∧
    (∀ (i : MultisigInput) (o : Multisig), i.required = o.threshold → (∀ sig ∈ i.signatures, sig.InRange) →
      ∃ unlock, (Input.multisig i).toScript = .ok unlock ∧ ∀ final,
        (∃ calls, evaluate ⟨{ flags }, some check, hashes⟩ unlock (Output.multisig o).toScript = .ok ⟨none, final, calls⟩) ↔
          final = [[1]] ∧ i.signatures.length = o.threshold ∧ (∀ sig ∈ i.signatures, sig.isCanonical = true) ∧
            Assigned (fun sig key => check (Output.multisig o).toScript key.bytes sig = true) i.signatures o.keys) := by
  refine ⟨fun sig key h => ?_, fun sig key hash h => ?_, fun i o hsame h => ?_⟩
  · exact ⟨_, toScript_p2pkInput h, evaluate_p2pk_iff h key⟩
  · exact ⟨_, _, TxSignature.toBytes_eq h, toScript_p2pkhInput h key, evaluate_p2pkh_iff h key hash⟩
  · exact ⟨_, toScript_multisigInput h, evaluate_multisig_iff h o hsame⟩

/-- A key that holds a number. -/
def PublicKey.numbered (n : UInt8) : PublicKey := ⟨2 :: n :: List.replicate 31 0, rfl⟩

/-- A check that takes the number of a key for the `r` of its signatures. -/
def SigCheck.numbered : SigCheck := fun _ key sig => key[1]? == some (UInt8.ofNat sig.r.toNat)

/-- A signature for a key, for the hash of a key, and two signatures for the first and the last of three keys. -/
theorem evaluate_standard_numbered :
    ((⟨1, 5, .all⟩ : TxSignature).InRange ∧ (⟨3, 5, .all⟩ : TxSignature).InRange) ∧
    (∃ unlock calls, (Input.p2pk ⟨1, 5, .all⟩).toScript = .ok unlock ∧
      evaluate ⟨{ flags := .standard }, some .numbered, .standard⟩ unlock (Output.p2pk (.numbered 1)).toScript =
        .ok ⟨none, [[1]], calls⟩) ∧
    (∃ unlock calls, (Input.p2pkh ⟨1, 5, .all⟩ (.numbered 1)).toScript = .ok unlock ∧
      evaluate ⟨{ flags := .standard }, some .numbered, .standard⟩ unlock
        (Output.ofPublicKey .standard (PublicKey.numbered 1).bytes).toScript = .ok ⟨none, [[1]], calls⟩) ∧
    ∃ unlock calls, (Input.multisig ⟨[⟨1, 5, .all⟩, ⟨3, 5, .all⟩], 2, by decide⟩).toScript = .ok unlock ∧
      evaluate ⟨{ flags := .standard }, some .numbered, .standard⟩ unlock
        (Output.multisig ⟨[.numbered 1, .numbered 2, .numbered 3], 2, by decide⟩).toScript =
          .ok ⟨none, [[1]], calls⟩ := by
  have h₁ : (⟨1, 5, .all⟩ : TxSignature).InRange := by decide
  have h₃ : (⟨3, 5, .all⟩ : TxSignature).InRange := by decide
  obtain ⟨hp2pk, hp2pkh, hmultisig⟩ := evaluate_standard_iff .standard .numbered .standard
  refine ⟨⟨h₁, h₃⟩, ?_, ?_, ?_⟩
  · obtain ⟨unlock, hunlock, hiff⟩ := hp2pk ⟨1, 5, .all⟩ (.numbered 1) h₁
    obtain ⟨calls, hcalls⟩ := (hiff [[1]]).mpr ⟨rfl, rfl, rfl⟩
    exact ⟨unlock, calls, hunlock, hcalls⟩
  · obtain ⟨bytes, unlock, -, hunlock, hiff⟩ := hp2pkh ⟨1, 5, .all⟩ (.numbered 1)
      (Hashes.standard.hash160 (PublicKey.numbered 1).bytes) h₁
    obtain ⟨calls, hcalls⟩ := (hiff [[1]]).mpr ⟨rfl, rfl, rfl, rfl⟩
    exact ⟨unlock, calls, hunlock, hcalls⟩
  · obtain ⟨unlock, hunlock, hiff⟩ := hmultisig ⟨[⟨1, 5, .all⟩, ⟨3, 5, .all⟩], 2, by decide⟩
      ⟨[.numbered 1, .numbered 2, .numbered 3], 2, by decide⟩ rfl (by simp [h₁, h₃])
    have hcanonical : ∀ sig ∈ [(⟨1, 5, .all⟩ : TxSignature), ⟨3, 5, .all⟩], sig.isCanonical = true := by
      simp only [List.mem_cons, List.not_mem_nil, or_false]
      rintro sig (rfl | rfl) <;> rfl
    obtain ⟨calls, hcalls⟩ := (hiff [[1]]).mpr
      ⟨rfl, rfl, hcanonical, .cons rfl (.cons_right (.cons rfl assigned_nil))⟩
    exact ⟨unlock, calls, hunlock, hcalls⟩

end SpendScript
