import SpendScript.Proofs.Numbers
import SpendScript.Proofs.StackSize
import SpendScript.Proofs.StrictDer

/-! # Evaluation ends with a script fault or none

Under the default numeric limits, and with a signature check, nothing ends an evaluation but a script fault. Every
item that is read lies within the stack, every number has a few bytes, so that it is written back and shown in
messages, and every signature can be pushed. What carries this through a run is that the items on both stacks are
short: they are pushed within the limit, or are numbers, truth values and digests. -/

namespace SpendScript

/-- The numeric limits are the default ones, and signatures can be checked. -/
structure Env.Ordinary (env : Env) : Prop where
  limits : env.limits = { flags := env.limits.flags }
  sigCheck : ∃ check, env.sigCheck = some check

theorem Env.Ordinary.scriptSize {env : Env} (h : env.Ordinary) : env.limits.scriptSize = 10000 := by
  rw [h.limits]

theorem Env.Ordinary.stackSize {env : Env} (h : env.Ordinary) : env.limits.stackSize = 1000 := by
  rw [h.limits]

theorem Env.Ordinary.opsPerScript {env : Env} (h : env.Ordinary) : env.limits.opsPerScript = 201 := by
  rw [h.limits]

def Fault.IsScript (f : Fault) : Prop := f.isScriptFault = true

/-- An evaluation ends by a script fault. -/
def Halt.IsScript (halt : Halt) : Prop := halt.fault.IsScript

/-- Both stacks hold short items only. -/
structure Machine.Short (m : Machine) : Prop where
  stack : ∀ item ∈ m.stack, item.length ≤ 520
  alt : ∀ item ∈ m.alt, item.length ≤ 520

/-! ### Faults and numbers -/

theorem Fault.IsScript.reported {f : Fault} (hf : f.IsScript) (hn : ∀ n ∈ f.numbers, n.natAbs ≤ 2 ^ 32) :
    f.reported.IsScript := by
  rw [Fault.reported_eq_self fun n h => ?_]
  · exact hf
  · exact Text.writable_of_natAbs_lt (k := 10) (by decide) (Nat.lt_of_le_of_lt (hn n h) (by decide))

theorem Number.item_short {n : Int} (h : n.natAbs ≤ 2 ^ 32) : ∃ item, Number.item n = .ok item ∧ item.length ≤ 520 := by
  have hw : Number.width n ≤ 5 := Number.width_le (k := 33) (by omega)
  refine ⟨Number.encode n, Number.item_eq n, ?_⟩
  rw [Number.length_encode]
  omega

theorem HashFunction.length_apply_le (hashes : Hashes) (f : HashFunction) (item : Bytes) :
    (f.apply hashes item).length ≤ 32 := by
  cases f <;> simp [HashFunction.apply, Hash160.length_bytes]

theorem Numeric.apply_eq {f : Numeric} {args : List Int} (h : args.length = f.arity)
    (hb : ∀ a ∈ args, a.natAbs ≤ 2 ^ 31) : ∃ n, f.apply args = .ok n ∧ n.natAbs ≤ 2 ^ 32 := by
  have hbool : ∀ b, (Numeric.ofBool b).natAbs ≤ 2 ^ 32 := by decide
  cases f with
  | add1 | sub1 | negate | abs =>
    match args, h with
    | [a], _ =>
      have ha := hb a (by simp)
      exact ⟨_, rfl, by omega⟩
  | add | sub | min | max =>
    match args, h with
    | [a, b], _ =>
      have ha := hb a (by simp)
      have hb := hb b (by simp)
      exact ⟨_, rfl, by omega⟩
  | not | nonZero => match args, h with | [a], _ => exact ⟨_, rfl, hbool _⟩
  | boolAnd | boolOr | equal | notEqual | less | greater | lessEqual | greaterEqual =>
    match args, h with | [a, b], _ => exact ⟨_, rfl, hbool _⟩
  | within => match args, h with | [a, b, c], _ => exact ⟨_, rfl, hbool _⟩

/-! ### Checks -/

theorem guard_script {p : Prop} [Decidable p] {f : Fault} (hf : f.IsScript)
    (hn : ∀ n ∈ f.numbers, n.natAbs ≤ 2 ^ 32) :
    Ends (fun _ => p) Fault.IsScript (if p then .ok () else .error f.reported : Except Fault Unit) := by
  split
  · assumption
  · exact hf.reported hn

/-- The counts of an action are those that opcodes have. -/
def Action.Small : Action → Prop
  | drop n | dup n | dupBelow n | rot n | swap n => n ≤ 3
  | _ => True

theorem Action.small_ofOpcode (op : Opcode) : (Action.ofOpcode op).Small := by
  unfold Action.ofOpcode
  split
  rotate_right
  · split <;> trivial
  all_goals simp [Action.Small]

namespace Limits
variable {l : Limits}

theorem cleanCode_eq {sig : Bytes} (h : sig.length ≤ 520) (code : Bytes) :
    cleanCode sig code = .ok (Script.delete (Push.encode sig) code) := by
  unfold cleanCode Push.item
  rw [if_pos (by omega)]
  rfl

theorem defect_ends {E : Fault → Prop} {rejected : Bool} {f : Fault} (hf : E f) :
    Ends (fun _ => True) E (defect rejected f) := by
  cases rejected with
  | false => trivial
  | true => exact hf

theorem checkSignature_ends (sig : Bytes) (strict : Flags) :
    Ends (fun _ => True) (fun f => f.faultClass.isA .invalidSignature = true) (l.checkSignature sig strict) := by
  unfold checkSignature
  split
  · trivial
  · rename_i hne
    rw [Der.inspect_eq]
    simp only [bind, Except.bind]
    split
    · exact defect_ends rfl
    · exact defect_ends rfl
    · split
      · unfold TxSignature.ofBytes Der.decodeLax
        rw [if_neg hne]
        split
        · rfl
        · trivial
      · exact defect_ends rfl

theorem checkSignature_script (sig : Bytes) (strict : Flags) :
    Ends (fun _ => True) Fault.IsScript (l.checkSignature sig strict) := by
  refine (checkSignature_ends sig strict).mono_error fun f hf => ?_
  unfold Fault.IsScript Fault.isScriptFault
  generalize f.faultClass = c at hf
  revert hf
  cases c <;> decide

variable (hl : l = { flags := l.flags })
include hl

theorem checkPublicKeyCount_script {count : Int} (h : count.natAbs ≤ 2 ^ 31) :
    Ends (fun _ => 0 ≤ count ∧ count ≤ 20) Fault.IsScript (l.checkPublicKeyCount count) := by
  rw [hl]
  refine guard_script rfl fun n hn => ?_
  simp only [Fault.numbers, List.mem_cons, List.not_mem_nil, or_false] at hn
  omega

theorem checkItemSize_script {size : Int} (h : size.natAbs ≤ 10000) :
    Ends (fun _ => size ≤ 520) Fault.IsScript (l.checkItemSize size) := by
  rw [hl]
  refine guard_script rfl fun n hn => ?_
  simp only [Fault.numbers, List.mem_cons, List.not_mem_nil, or_false] at hn
  omega

theorem checkNumberLength_script {size : Nat} (h : size ≤ 520) :
    Ends (fun _ => size ≤ 4) Fault.IsScript (l.checkNumberLength size) := by
  rw [hl]
  refine Ends.mono (P := fun _ => (size : Int) ≤ 4) (guard_script rfl fun n hn => ?_) fun _ => Int.ofNat_le.mp
  simp only [Fault.numbers, List.mem_cons, List.not_mem_nil, or_false] at hn
  omega

/-- The number of a short item is one of at most four bytes. -/
theorem number_script {item : Bytes} (h : item.length ≤ 520) :
    Ends (fun n : Int => n.natAbs ≤ 2 ^ 31) Fault.IsScript (l.number item) := by
  refine (checkNumberLength_script hl h).bind fun _ hlen => ?_
  split
  · rfl
  · exact Nat.le_trans (Number.natAbs_decode_le item) (Number.signBit_mono hlen)

end Limits

/-! ### Items of a script -/

theorem Operation.length_item_le {op : Operation} {item : Bytes} (h : op.item? = some item) :
    item.length ≤ op.size := by
  cases op with
  | push p =>
    cases h
    show _ ≤ p.size
    unfold PushData.size
    omega
  | code op =>
    change constant? op = some item at h
    unfold constant? at h
    split at h
    · cases h
      exact Nat.zero_le _
    · split at h
      · cases h
        exact Nat.le_refl _
      · split at h
        · cases h
          exact Nat.le_refl _
        · cases h

theorem Script.length_item_le {script item : Bytes} {op : Operation} (h : op ∈ (listing script).ops)
    (hi : op.item? = some item) : item.length ≤ script.length := by
  obtain ⟨before, after, hops⟩ := List.append_of_mem h
  have hlen := congrArg List.length (ofOps_listing script)
  simp only [hops, ofOps, List.flatMap_append, List.flatMap_cons, List.length_append, op.length_toBytes] at hlen
  have := Operation.length_item_le hi
  omega

/-! ### Parts of a machine -/

namespace Machine
variable {env : Env} {m : Machine}

/-- Short items, and one on the stack. -/
def Topped (m : Machine) : Prop := m.Short ∧ 0 < m.stack.length

theorem Short.cons (h : m.Short) {item : Bytes} (hi : item.length ≤ 520) (n : Nat) :
    Short { m with stack := item :: m.stack.drop n } := by
  refine ⟨fun i hm => ?_, h.alt⟩
  rcases List.mem_cons.mp hm with rfl | hm
  · exact hi
  · exact h.stack i (List.mem_of_mem_drop hm)

theorem Short.drop (h : m.Short) (n : Nat) : Short { m with stack := m.stack.drop n } :=
  ⟨fun item hi => h.stack item (List.mem_of_mem_drop hi), h.alt⟩

theorem fail_script {α : Type} {P : α → Prop} {f : Fault} (hf : f.IsScript)
    (hn : ∀ n ∈ f.numbers, n.natAbs ≤ 2 ^ 32) : Ends P Halt.IsScript (m.fail f : Except Halt α) :=
  hf.reported hn

theorem requireDepth_script {depth : Int} (hd : depth.natAbs ≤ 2 ^ 32) :
    Ends (fun _ => depth ≤ m.stack.length) Halt.IsScript (m.requireDepth depth) := by
  unfold requireDepth
  split
  · exact fail_script rfl fun n hn => by rw [List.mem_singleton.mp hn]; exact hd
  · rename_i h
    exact Int.not_lt.mp h

theorem peek_script (h : m.Short) {i : Nat} (hi : (i : Int) < m.stack.length) :
    Ends (fun item => item.length ≤ 520) Halt.IsScript (m.peek i) := by
  obtain ⟨item, hm, he⟩ := peek_eq (Int.ofNat_lt.mp hi)
  rw [he]
  exact h.stack item hm

theorem pop_script {n : Nat} (hn : (n : Int) ≤ m.stack.length) :
    Ends (fun m' => m' = { m with stack := m.stack.drop n }) Halt.IsScript (m.pop n) := by
  rw [pop_eq (Int.ofNat_le.mp hn)]
  exact rfl

theorem replace_script (h : m.Short) {n : Nat} (hn : (n : Int) ≤ m.stack.length) {item : Bytes}
    (hi : item.length ≤ 520) : Ends Topped Halt.IsScript (m.replace n item) := by
  rw [replace_eq (Int.ofNat_le.mp hn)]
  exact ⟨h.cons hi n, Nat.succ_pos _⟩

theorem requireAlt_script : Ends (fun _ => m.alt ≠ []) Halt.IsScript m.requireAlt := by
  unfold requireAlt
  split
  · exact fail_script rfl fun n hn => (nomatch hn)
  · assumption

theorem popAlt_script (h : m.Short) (hne : m.alt ≠ []) :
    Ends (fun r => r.1.length ≤ 520 ∧ r.2.Short) Halt.IsScript m.popAlt := by
  unfold popAlt
  split
  · contradiction
  · rename_i item rest ha
    have hi := fun i hm => h.alt i (ha ▸ hm)
    exact ⟨hi item List.mem_cons_self, h.stack, fun i hm => hi i (List.mem_cons_of_mem item hm)⟩

theorem popVerify_script (h : m.Topped) (v : Verification) : Ends Short Halt.IsScript (m.popVerify v) := by
  have hd : (1 : Nat) ≤ (m.stack.length : Int) := Int.ofNat_le.mpr h.2
  refine (peek_script h.1 hd).bind fun item _ => ?_
  split
  · exact (pop_script hd).mono fun m' hm' => hm' ▸ h.1.drop 1
  · exact fail_script (by cases v <;> rfl) fun n hn => (nomatch hn)

section
variable (h : m.Short)
include h

theorem openIf_script (negated : Bool) : Ends Short Halt.IsScript (m.openIf negated) := by
  unfold openIf
  split
  · refine (requireDepth_script (by decide)).bind fun _ hd => (peek_script h (by omega)).bind fun item _ => ?_
    refine (pop_script hd).bind fun m' hm' => ?_
    subst hm'
    exact ⟨(h.drop 1).stack, h.alt⟩
  · exact ⟨h.stack, h.alt⟩

theorem otherwise_script : Ends Short Halt.IsScript m.otherwise := by
  unfold otherwise
  split
  · exact fail_script rfl fun n hn => (nomatch hn)
  · exact ⟨h.stack, h.alt⟩

theorem closeIf_script : Ends Short Halt.IsScript m.closeIf := by
  unfold closeIf
  split
  · exact fail_script rfl fun n hn => (nomatch hn)
  · exact ⟨h.stack, h.alt⟩

end

section
variable (ho : env.Ordinary) (h : m.Short)
include ho

theorem requireRoom_script (count : Nat) : Ends (fun _ => True) Halt.IsScript (m.requireRoom env count) := by
  unfold requireRoom
  split
  · exact fail_script rfl fun n hn => by rw [List.mem_singleton.mp hn, ho.stackSize]; decide
  · trivial

theorem bump_script (count : Int) :
    Ends (fun m' => m' = { m with opCount := m.opCount + count }) Halt.IsScript (m.bump env count) := by
  unfold bump
  dsimp only
  split
  · exact fail_script rfl fun n hn => by rw [List.mem_singleton.mp hn, ho.opsPerScript]; decide
  · exact rfl

include h

theorem pushAll_script {items : List Bytes} (hi : ∀ item ∈ items, item.length ≤ 520) :
    Ends Short Halt.IsScript (m.pushAll env items) := by
  refine (requireRoom_script ho items.length).bind fun _ _ => ⟨fun item hm => ?_, h.alt⟩
  rcases List.mem_append.mp hm with hm | hm
  · exact hi item hm
  · exact h.stack item hm

theorem pushAllAlt_script {items : List Bytes} (hi : ∀ item ∈ items, item.length ≤ 520) :
    Ends Short Halt.IsScript (m.pushAllAlt env items) := by
  refine (requireRoom_script ho items.length).bind fun _ _ => ⟨h.stack, fun item hm => ?_⟩
  rcases List.mem_append.mp hm with hm | hm
  · exact hi item hm
  · exact h.alt item hm

theorem push_script {item : Bytes} (hi : item.length ≤ 520) : Ends Topped Halt.IsScript (m.push env item) :=
  (requireRoom_script ho 1).bind fun _ _ => ⟨h.cons hi 0, Nat.succ_pos _⟩

/-! ### Actions -/

theorem moveToTop_script {depth count : Nat} (hd : depth ≤ 9) :
    Ends Short Halt.IsScript (m.moveToTop env depth count) := by
  refine (requireDepth_script (by omega)).bind fun _ hdepth => (pop_script hdepth).bind fun below hb => ?_
  subst hb
  have hs : Short { m with stack := m.stack.take (depth - count) ++ m.stack.drop depth } := by
    refine ⟨fun item hi => ?_, h.alt⟩
    rcases List.mem_append.mp hi with hi | hi
    · exact h.stack item (List.mem_of_mem_take hi)
    · exact h.stack item (List.mem_of_mem_drop hi)
  exact pushAll_script ho hs fun item hi => h.stack item (List.mem_of_mem_drop (List.mem_of_mem_take hi))

theorem pick_script (remove : Bool) : Ends Short Halt.IsScript (m.pick env remove) := by
  refine (requireDepth_script (by decide)).bind fun _ hd => (peek_script h (by omega)).bind fun item hi => ?_
  refine ((Limits.number_script ho.limits hi).attempt m).bind fun n hn => ?_
  refine (pop_script (by omega)).bind fun m' hm' => ?_
  have h' : m'.Short := hm' ▸ h.drop 1
  split
  · rename_i hr
    refine (peek_script h' (by omega)).bind fun item hi => Ends.mono (push_script ho ?_ hi) fun _ hm => hm.1
    refine ⟨fun item hi => ?_, h'.alt⟩
    dsimp only at hi
    split at hi
    · exact h'.stack item (List.mem_of_mem_eraseIdx hi)
    · exact h'.stack item hi
  · exact fail_script rfl fun k hk => by rw [List.mem_singleton.mp hk]; omega

theorem equal_script : Ends Topped Halt.IsScript (m.equal env) := by
  refine (requireDepth_script (by decide)).bind fun _ hd => (peek_script h (by omega)).bind fun first _ => ?_
  refine (peek_script h (by omega)).bind fun second _ => (pop_script (by omega)).bind fun m' hm' => ?_
  exact push_script ho (hm' ▸ h.drop 2) (by cases first == second <;> decide)

theorem numeric_script (f : Numeric) : Ends Topped Halt.IsScript (m.numeric env f) := by
  have hf : f.arity ≤ 3 := by cases f <;> decide
  refine (requireDepth_script (by omega)).bind fun _ hd => ?_
  refine ((Ends.mapM fun item hi => Limits.number_script ho.limits (h.stack item ?_)).attempt m).bind
    fun args hargs => ?_
  · exact List.mem_of_mem_take (List.mem_reverse.mp hi)
  · rw [List.length_reverse, List.length_take] at hargs
    obtain ⟨n, hn, hb⟩ := Numeric.apply_eq (f := f) (by omega) hargs.2
    obtain ⟨item, hi, hshort⟩ := Number.item_short hb
    have he : (f.apply args >>= Number.item) = .ok item := by
      rw [hn]
      exact hi
    rw [he]
    exact replace_script h hd hshort

end

section
variable (ho : env.Ordinary)
include ho

theorem checkOne_script (strict : Flags) (code sig key : Bytes) :
    Ends (fun r => r.2.stack = m.stack ∧ r.2.alt = m.alt) Halt.IsScript (m.checkOne env strict code sig key) := by
  refine ((Limits.checkSignature_script sig strict).attempt m).bind fun parsed _ => ?_
  have hkey : Ends (fun _ => _) Fault.IsScript (env.limits.checkPublicKey key) := Ends.refuse rfl
  refine (hkey.attempt m).bind fun _ _ => ?_
  obtain ⟨check, hc⟩ := ho.sigCheck
  rw [hc]
  cases parsed with
  | none => exact ⟨rfl, rfl⟩
  | some txSig => exact ⟨rfl, rfl⟩

theorem matchAll_script (code : Bytes) (sigs keys : List Bytes) :
    Ends (fun r => r.2.stack = m.stack ∧ r.2.alt = m.alt) Halt.IsScript (matchAll env code sigs keys m) := by
  refine matchAll_ends (I := fun m' => m'.stack = m.stack ∧ m'.alt = m.alt) (fun m' hm' sig key => ?_) ⟨rfl, rfl⟩ sigs keys
  exact (checkOne_script ho _ code sig key).mono fun r hr => ⟨hr.1.trans hm'.1, hr.2.trans hm'.2⟩

variable (h : m.Short)
include h

theorem checkSig_script : Ends Topped Halt.IsScript (m.checkSig env) := by
  refine (requireDepth_script (by decide)).bind fun _ hd => (peek_script h (by omega)).bind fun key _ => ?_
  refine (peek_script h (by omega)).bind fun sig hsig => ?_
  rw [Limits.cleanCode_eq hsig]
  refine (checkOne_script ho _ _ sig key).bind fun r hr => ?_
  refine replace_script ⟨hr.1 ▸ h.stack, hr.2 ▸ h.alt⟩ (hr.1 ▸ hd) ?_
  cases r.1 <;> decide

theorem checkMultiSig_script : Ends Topped Halt.IsScript (m.checkMultiSig env) := by
  refine (requireDepth_script (by decide)).bind fun _ hd => (peek_script h (by omega)).bind fun keyItem hk => ?_
  refine ((Limits.number_script ho.limits hk).attempt m).bind fun keyCount hn => ?_
  refine ((Limits.checkPublicKeyCount_script ho.limits hn).attempt m).bind fun _ hkeys => ?_
  refine (bump_script ho keyCount).bind fun m hm => ?_
  have h : m.Short := hm ▸ ⟨h.stack, h.alt⟩
  refine (requireDepth_script (by omega)).bind fun _ hd => (peek_script h (by omega)).bind fun sigItem hs => ?_
  refine ((Limits.number_script ho.limits hs).attempt m).bind fun sigCount hn => ?_
  split
  · refine fail_script rfl fun n hn => ?_
    simp only [Fault.numbers, List.mem_cons, List.not_mem_nil, or_false] at hn
    omega
  · rename_i hsigs
    refine (requireDepth_script (by omega)).bind fun _ hd => ?_
    have hclean : Ends (fun _ => True) Fault.IsScript
        (((m.stack.drop (keyCount.toNat + 2)).take sigCount.toNat).reverse.foldlM
          (fun code sig => Limits.cleanCode sig code) m.code) := by
      refine Ends.foldlM (fun code sig hs _ => ?_) trivial
      rw [Limits.cleanCode_eq (h.stack sig (List.mem_of_mem_drop (List.mem_of_mem_take (List.mem_reverse.mp hs))))]
      trivial
    refine (hclean.attempt m).bind fun code _ => (matchAll_script ho code _ _).bind fun r hr => ?_
    have h : r.2.Short := ⟨hr.1 ▸ h.stack, hr.2 ▸ h.alt⟩
    rw [← hr.1] at hd
    refine (pop_script (by omega)).bind fun m' hm' => ?_
    subst hm'
    have hdummy : ((0 : Nat) : Int) < (r.2.stack.drop (keyCount.toNat + sigCount.toNat + 2)).length := by
      rw [List.length_drop]
      omega
    refine (peek_script (h.drop _) hdummy).bind fun dummy _ => ?_
    have hnull : Ends (fun _ => _) Fault.IsScript (env.limits.checkNullDummy dummy) := Ends.refuse rfl
    refine (hnull.attempt _).bind fun _ _ => replace_script (h.drop _) hdummy ?_
    cases r.1 <;> decide

/-- Only the depth of the stack, as an item, needs the bound on the number of items. -/
theorem perform_script (hs : m.size ≤ 1000) (op : Opcode) {a : Action} (ha : a.Small) :
    Ends Short Halt.IsScript (m.perform env op a) := by
  cases a with
  | nop => exact h
  | openIf negated => exact openIf_script h negated
  | otherwise => exact otherwise_script h
  | closeIf => exact closeIf_script h
  | verify =>
    exact (requireDepth_script (by decide)).bind fun _ hd => popVerify_script ⟨h, Int.ofNat_lt.mp hd⟩ _
  | abort | invalid => exact fail_script rfl fun n hn => (nomatch hn)
  | toAlt =>
    refine (requireDepth_script (by decide)).bind fun _ hd => (peek_script h (by omega)).bind fun item hi => ?_
    refine (pop_script hd).bind fun m' hm' => pushAllAlt_script ho (hm' ▸ h.drop 1) fun i hm => ?_
    rw [List.mem_singleton.mp hm]
    exact hi
  | fromAlt =>
    refine requireAlt_script.bind fun _ hne => (popAlt_script h hne).bind fun r hr => ?_
    exact (push_script ho hr.2 hr.1).mono fun _ hm => hm.1
  | drop n =>
    change n ≤ 3 at ha
    refine (requireDepth_script (by omega)).bind fun _ hd => ?_
    exact (pop_script hd).mono fun _ hm => hm ▸ h.drop n
  | dup n =>
    change n ≤ 3 at ha
    refine (requireDepth_script (by omega)).bind fun _ _ => pushAll_script ho h fun item hi => ?_
    exact h.stack item (List.mem_of_mem_take hi)
  | dupBelow n =>
    change n ≤ 3 at ha
    refine (requireDepth_script (by omega)).bind fun _ _ => ?_
    exact pushAll_script ho h fun item hi => h.stack item (List.mem_of_mem_drop (List.mem_of_mem_take hi))
  | rot n => exact moveToTop_script ho h (Nat.mul_le_mul_left 3 ha)
  | swap n => exact moveToTop_script ho h (Nat.le_trans (Nat.mul_le_mul_left 2 ha) (by decide))
  | ifDup =>
    refine (requireDepth_script (by decide)).bind fun _ hd => (peek_script h (by omega)).bind fun item hi => ?_
    split
    · exact (push_script ho h hi).mono fun _ hm => hm.1
    · exact h
  | depth =>
    obtain ⟨item, hi, hshort⟩ := Number.item_short (n := m.stack.length) (by unfold size at hs; omega)
    unfold perform
    rw [hi]
    exact (push_script ho h hshort).mono fun _ hm => hm.1
  | nip =>
    refine (requireDepth_script (by decide)).bind fun _ hd => (peek_script h (by omega)).bind fun item hi => ?_
    exact (replace_script h hd hi).mono fun _ hm => hm.1
  | tuck =>
    refine (requireDepth_script (by decide)).bind fun _ hd => (peek_script h (by omega)).bind fun item hi => ?_
    refine (requireRoom_script ho 1).bind fun _ _ => ⟨fun i hm => ?_, h.alt⟩
    rcases (List.mem_insertIdx (Int.ofNat_le.mp hd)).mp hm with rfl | hm
    · exact hi
    · exact h.stack i hm
  | pick remove => exact pick_script ho h remove
  | size =>
    refine (requireDepth_script (by decide)).bind fun _ hd => (peek_script h (by omega)).bind fun top ht => ?_
    obtain ⟨item, hi, hshort⟩ := Number.item_short (n := top.length) (by omega)
    rw [hi]
    exact (push_script ho h hshort).mono fun _ hm => hm.1
  | equal => exact (equal_script ho h).mono fun _ hm => hm.1
  | equalVerify => exact (equal_script ho h).bind fun _ hm => popVerify_script hm _
  | numeric f => exact (numeric_script ho h f).mono fun _ hm => hm.1
  | numEqualVerify => exact (numeric_script ho h .equal).bind fun _ hm => popVerify_script hm _
  | hash f =>
    refine (requireDepth_script (by decide)).bind fun _ hd => (peek_script h (by omega)).bind fun item _ => ?_
    have := f.length_apply_le env.hashes item
    exact (replace_script h hd (by omega)).mono fun _ hm => hm.1
  | codeSeparator => exact ⟨h.stack, h.alt⟩
  | checkSig => exact (checkSig_script ho h).mono fun _ hm => hm.1
  | checkSigVerify => exact (checkSig_script ho h).bind fun _ hm => popVerify_script hm _
  | checkMultiSig => exact (checkMultiSig_script ho h).mono fun _ hm => hm.1
  | checkMultiSigVerify => exact (checkMultiSig_script ho h).bind fun _ hm => popVerify_script hm _
  | upgradeableNop =>
    have hnop : Ends (fun _ => _) Fault.IsScript (env.limits.checkNop op) := Ends.refuse rfl
    exact (hnop.attempt m).bind fun _ _ => h

end

/-! ### Operations and scripts -/

theorem step_script (ho : env.Ordinary) (h : m.Short) (hs : m.size ≤ 1000) {op : Operation}
    (hop : ∀ item, op.item? = some item → item.length ≤ 10000) : Ends Short Halt.IsScript (m.step env op) := by
  -- An item within the script is short once its size has been checked.
  have hitem : Ends (fun _ => ∀ item, op.item? = some item → item.length ≤ 520) Halt.IsScript
      (checkItem env op (m.advance op)) := by
    unfold checkItem
    split
    · rename_i item hi
      refine ((Limits.checkItemSize_script ho.limits ?_).attempt _).mono fun _ hle item' hi' => ?_
      · exact hop item hi
      · cases hi.symm.trans hi'
        exact Int.ofNat_le.mp hle
    · rename_i hi
      exact fun item hi' => (nomatch hi.symm.trans hi')
  have hcount : Ends (fun m' => m'.stack = m.stack ∧ m'.alt = m.alt) Halt.IsScript
      (count env op { m.advance op with execute := (m.advance op).isExecuting }) := by
    unfold count
    split
    · exact (bump_script ho 1).mono fun m' hm => by rw [hm]; exact ⟨rfl, rfl⟩
    · exact ⟨rfl, rfl⟩
  refine hitem.bind fun _ hitem => hcount.bind fun m' hm' => ?_
  have h' : m'.Short := ⟨hm'.1 ▸ h.stack, hm'.2 ▸ h.alt⟩
  have hs' : m'.size ≤ 1000 := by
    unfold size at hs ⊢
    rw [hm'.1, hm'.2]
    exact hs
  split
  · exact fail_script rfl fun n hn => (nomatch hn)
  · split
    · unfold execute1
      split
      · rename_i item hi
        have hpush : Ends (fun _ => _) Fault.IsScript (env.limits.checkPush op.opcode.toNat item) := Ends.refuse rfl
        refine (hpush.attempt m').bind fun _ _ => (push_script ho h' (hitem item hi)).mono fun _ hm => hm.1
      · exact perform_script ho h' hs' _ (Action.small_ofOpcode _)
    · unfold skip1
      split
      · exact perform_script ho h' hs' _ (Action.small_ofOpcode _)
      · exact h'

/-- What a script leaves behind: short items, no more than the limit. -/
def Kept (m : Machine) : Prop := m.Short ∧ Within 1000 m

theorem Kept.length_stack_le (h : m.Kept) : m.stack.length ≤ 1000 := by
  have := h.2
  unfold Within size at this
  omega

theorem runScript_script (ho : env.Ordinary) (hs : ∀ item ∈ m.stack, item.length ≤ 520)
    (hl : m.stack.length ≤ 1000) (script : Bytes) : Ends Kept Halt.IsScript (m.runScript env script) := by
  unfold runScript
  rw [ho.scriptSize]
  split
  · exact fail_script rfl fun n hn => by rw [List.mem_singleton.mp hn]; decide
  · rename_i hsize
    refine Ends.bind (Ends.foldlM (I := Kept) (fun m op hop hk => ?_) ?_) fun m' hk => ?_
    · have hw : Within env.limits.stackSize m := ho.stackSize.symm ▸ hk.2
      have hwithin := ho.stackSize ▸ step_within hw op
      refine (step_script ho hk.1 (Int.ofNat_le.mp hk.2) fun item hi => ?_).and hwithin
      have := Script.length_item_le hop hi
      omega
    · refine ⟨⟨hs, fun item hi => (nomatch hi)⟩, ?_⟩
      show ((m.stack.length + 0 : Nat) : Int) ≤ 1000
      omega
    · unfold finish
      split
      · exact fail_script rfl fun n hn => (nomatch hn)
      · exact fail_script rfl fun n hn => (nomatch hn)
      · exact hk

theorem requireTrueTop_script : Ends (fun _ => True) Halt.IsScript m.requireTrueTop := by
  unfold requireTrueTop
  split
  · trivial
  · exact fail_script rfl fun n hn => (nomatch hn)

theorem redeem_script (ho : env.Ordinary) (hk : m.Kept) {left : List Bytes}
    (hs : ∀ item ∈ left, item.length ≤ 520) (hl : left.length ≤ 1000) (unlock lock : Bytes) :
    Ends (fun _ => True) Halt.IsScript (m.redeem env unlock lock left) := by
  unfold redeem
  split
  · unfold runRedeem
    split
    · exact fail_script rfl fun n hn => (nomatch hn)
    · have hshort : Short { m with stack := left } := ⟨hs, hk.1.alt⟩
      refine (requireDepth_script (by decide)).bind fun _ hd => (peek_script hshort (by omega)).bind fun script _ => ?_
      refine (pop_script hd).bind fun m' hm' => ?_
      subst hm'
      refine (runScript_script ho (hshort.drop 1).stack ?_ script).bind fun m' _ => ?_
      · show (left.drop 1).length ≤ 1000
        rw [List.length_drop]
        omega
      · exact requireTrueTop_script.bind fun _ _ => trivial
  · trivial

theorem spend_script (ho : env.Ordinary) (unlock lock : Bytes) :
    Ends (fun _ => True) Halt.IsScript (spend env unlock lock { }) := by
  unfold spend
  split
  · exact fail_script rfl fun n hn => (nomatch hn)
  · have hempty : ∀ item ∈ ({ } : Machine).stack, item.length ≤ 520 := fun item hi => (nomatch hi)
    refine (runScript_script ho hempty (Nat.zero_le _) unlock).bind fun unlocked hu => ?_
    refine (runScript_script ho hu.1.stack hu.length_stack_le lock).bind fun locked hl => ?_
    refine requireTrueTop_script.bind fun _ _ => ?_
    refine (redeem_script ho hl hu.1.stack hu.length_stack_le unlock lock).bind fun m _ => ?_
    have hclean : Ends (fun _ => True) Halt.IsScript (m.requireClean env) := by
      unfold requireClean
      split
      · exact fail_script rfl fun n hn => (nomatch hn)
      · trivial
    exact hclean.bind fun _ _ => trivial

end Machine

/-! ### Evaluations -/

theorem evaluate_script {env : Env} (ho : env.Ordinary) (unlock lock : Bytes) :
    ∃ e, evaluate env unlock lock = .ok e ∧ ∀ f, e.fault = some f → f.isScriptFault = true := by
  have h := Machine.spend_script ho unlock lock
  unfold evaluate
  cases hrun : Machine.spend env unlock lock { } with
  | ok m => exact ⟨_, rfl, fun f hf => (nomatch hf)⟩
  | error halt =>
    rw [hrun] at h
    refine ⟨_, if_pos h, fun f hf => ?_⟩
    cases hf
    exact h

/-- What verification makes of the fault of an evaluation. -/
def verdict : Option Fault → Except Fault Bool
  | none => .ok true
  | some f => if f = .evalFalse then .ok false else .error f

theorem verify_eq_verdict {env : Env} {unlock lock : Bytes} {e : Evaluation}
    (h : evaluate env unlock lock = .ok e) : verify env unlock lock = verdict e.fault := by
  unfold evaluate at h
  unfold verify
  cases hrun : Machine.spend env unlock lock { } with
  | ok m =>
    rw [hrun] at h
    cases h
    rfl
  | error halt =>
    rw [hrun] at h
    unfold Evaluation.ofRun at h
    dsimp only at h
    split at h
    · cases h
      rfl
    · cases h

theorem verdict_eq_ok_true {fault : Option Fault} : verdict fault = .ok true ↔ fault = none := by
  cases fault with
  | none => exact ⟨fun _ => rfl, fun _ => rfl⟩
  | some f => by_cases hf : f = .evalFalse <;> simp [verdict, hf]

theorem verdict_eq_ok_false {fault : Option Fault} : verdict fault = .ok false ↔ fault = some .evalFalse := by
  cases fault with
  | none => simp [verdict]
  | some f => by_cases hf : f = .evalFalse <;> simp [verdict, hf]

theorem verdict_eq_error {fault : Option Fault} {f : Fault} :
    verdict fault = .error f ↔ fault = some f ∧ f ≠ .evalFalse := by
  cases fault with
  | none => simp [verdict]
  | some f' =>
    by_cases hf : f' = .evalFalse
    · subst hf
      exact ⟨fun h => (nomatch h), fun h => absurd (Option.some.inj h.1).symm h.2⟩
    · simp only [verdict, hf, if_false, Except.error.injEq, Option.some.injEq]
      exact ⟨fun h => ⟨h, h ▸ hf⟩, fun h => h.1⟩

/-- An evaluation always has a result, and its fault, if there is one, is a script fault. Verification tells the
    same: it is true without a fault, false if the stack is left with a false top, and fails with any other. -/
theorem evaluate_ends_with_script_fault (flags : Flags) (check : SigCheck) (hashes : Hashes) (unlock lock : Bytes) :
    ∃ e, evaluate ⟨{ flags }, some check, hashes⟩ unlock lock = .ok e ∧
      (∀ f, e.fault = some f → f.isScriptFault = true) ∧
      (verify ⟨{ flags }, some check, hashes⟩ unlock lock = .ok true ↔ e.fault = none) ∧
      (verify ⟨{ flags }, some check, hashes⟩ unlock lock = .ok false ↔ e.fault = some .evalFalse) ∧
      ∀ f, verify ⟨{ flags }, some check, hashes⟩ unlock lock = .error f ↔ e.fault = some f ∧ f ≠ .evalFalse := by
  have ho : Env.Ordinary ⟨{ flags }, some check, hashes⟩ := ⟨rfl, check, rfl⟩
  obtain ⟨e, he, hf⟩ := evaluate_script ho unlock lock
  rw [verify_eq_verdict he]
  exact ⟨e, he, hf, verdict_eq_ok_true, verdict_eq_ok_false, fun f => verdict_eq_error⟩

end SpendScript
