import SpendScript.Proofs.Arithmetic
import SpendScript.Proofs.ScriptFaults
import SpendScript.Proofs.SignatureChecks
import SpendScript.Proofs.SoftFork
import SpendScript.Proofs.StackBound
import SpendScript.Proofs.StackDiagrams

/-! # What failed opcodes leave

An opcode that fails leaves both stacks as they were, unless it fails when it has already taken items (`Leaves`): an index that
is out of range is gone, a comparison or check that was to be true has left its false result, and a dummy that must be empty is
found once all above it is gone. Items that are taken and put back never fail for want of room, since the stacks are within the
limit in every state that an evaluation performs opcodes in. The stack that is left is the one that the evaluation reports
(`evaluate_failed_opcode`). -/

namespace SpendScript

/-! ### Faults -/

/-- The classes of faults that are found only when items have been taken. -/
def FaultClass.isLate : FaultClass → Bool
  | equalVerifyFailed | numEqualVerifyFailed | checkSigVerifyFailed | checkMultiSigVerifyFailed | nullDummy => true
  | _ => false

def Fault.IsEarly (f : Fault) : Prop := f.faultClass.isLate = false

namespace Fault.IsEarly

theorem reported {f : Fault} (h : f.IsEarly) : f.reported.IsEarly := by
  rcases reported_cases f with heq | heq
  · rwa [heq]
  · rw [heq]
    rfl

theorem of_isA_invalidSignature {f : Fault} (h : f.faultClass.isA .invalidSignature = true) : f.IsEarly := by
  unfold IsEarly
  generalize f.faultClass = c at h
  revert h
  cases c <;> decide

end Fault.IsEarly

namespace Limits

theorem number_early (l : Limits) (item : Bytes) : Ends (fun n => l.number item = .ok n) Fault.IsEarly (l.number item) := by
  cases h : l.number item with
  | ok n => rfl
  | error f =>
    have hclass := StackOp.number_error_class h
    show f.faultClass.isLate = false
    generalize f.faultClass = c at hclass
    revert hclass
    cases c <;> decide

theorem cleanCode_early (sig code : Bytes) : Ends (fun _ => True) Fault.IsEarly (cleanCode sig code) := by
  unfold cleanCode Push.item
  split
  · trivial
  · exact rfl

theorem checkPublicKeyCount_early (l : Limits) (count : Int) :
    Ends (fun _ => 0 ≤ count ∧ count ≤ l.keysPerMultisig) Fault.IsEarly (l.checkPublicKeyCount count) := by
  unfold checkPublicKeyCount
  split
  · assumption
  · exact Fault.IsEarly.reported rfl

end Limits

theorem Number.item_early (n : Int) : Ends (fun _ => True) Fault.IsEarly (Number.item n) := by
  rw [item_eq]
  trivial

namespace Machine
variable {env : Env} {m m' : Machine}

/-! ### Parts that fail before anything is taken -/

/-- A halt by an early fault that has left both stacks of a state as they were. -/
structure Intact (m : Machine) (halt : Halt) : Prop where
  early : halt.fault.IsEarly
  stack : halt.machine.stack = m.stack
  alt : halt.machine.alt = m.alt

theorem Intact.of_same {halt : Halt} (h : m'.Intact halt) (hstack : m'.stack = m.stack) (hsecond : m'.alt = m.alt) :
    m.Intact halt :=
  ⟨h.early, h.stack.trans hstack, h.alt.trans hsecond⟩

theorem fail_intact {α : Type} {P : α → Prop} {f : Fault} (hf : f.IsEarly) : Ends P m.Intact (m.fail f : Except Halt α) :=
  ⟨hf.reported, rfl, rfl⟩

theorem attempt_intact {α : Type} {P : α → Prop} {x : Except Fault α} (h : Ends P Fault.IsEarly x) :
    Ends P m.Intact (m.attempt x) := by
  cases x with
  | error f => exact ⟨h, rfl, rfl⟩
  | ok a => exact h

theorem requireDepth_intact (depth : Int) : Ends (fun _ => depth ≤ m.stack.length) m.Intact (m.requireDepth depth) := by
  unfold requireDepth
  split
  · exact fail_intact rfl
  · rename_i h
    exact Int.not_lt.mp h

theorem peek_intact (i : Nat) : Ends (fun item => m.stack[i]? = some item) m.Intact (m.peek i) := by
  unfold peek
  split
  · assumption
  · exact fail_intact rfl

theorem pop_intact (n : Nat) :
    Ends (fun m' => n ≤ m.stack.length ∧ m' = { m with stack := m.stack.drop n }) m.Intact (m.pop n) := by
  unfold pop
  split
  · rename_i h
    exact ⟨h, rfl⟩
  · exact fail_intact rfl

theorem replace_intact (n : Nat) (item : Bytes) :
    Ends (fun m' => m' = { m with stack := item :: m.stack.drop n }) m.Intact (m.replace n item) := by
  refine (pop_intact n).bind fun m' hm' => ?_
  rw [hm'.2]
  exact rfl

theorem requireAlt_intact : Ends (fun _ => True) m.Intact m.requireAlt := by
  unfold requireAlt
  split
  · exact fail_intact rfl
  · trivial

theorem popAlt_intact : Ends (fun r => m.alt = r.1 :: r.2.alt ∧ r.2 = { m with alt := r.2.alt }) m.Intact m.popAlt := by
  unfold popAlt
  split
  · exact fail_intact rfl
  · rename_i h
    exact ⟨h, rfl⟩

theorem requireRoom_intact (count : Nat) : Ends (fun _ => True) m.Intact (m.requireRoom env count) := by
  unfold requireRoom
  split
  · exact fail_intact rfl
  · trivial

theorem pushAll_intact (items : List Bytes) : Ends (fun _ => True) m.Intact (m.pushAll env items) :=
  (requireRoom_intact items.length).bind fun _ _ => trivial

theorem bump_intact (count : Int) : Ends (fun m' => ∃ n, m' = { m with opCount := n }) m.Intact (m.bump env count) := by
  unfold bump
  dsimp only
  split
  · have hearly : (Fault.opCount env.limits.opsPerScript).IsEarly := rfl
    exact (fail_intact hearly).mono_error fun _ h => h.of_same rfl rfl
  · exact ⟨_, rfl⟩

theorem checkOne_intact (strict : Flags) (code sig key : Bytes) :
    Ends (fun r => r.2.stack = m.stack ∧ r.2.alt = m.alt) m.Intact (m.checkOne env strict code sig key) := by
  have hsig := (Limits.checkSignature_ends (l := env.limits) sig strict).mono_error
    fun _ hf => Fault.IsEarly.of_isA_invalidSignature hf
  have hkey : Ends (fun _ => True) Fault.IsEarly (env.limits.checkPublicKey key) := by
    unfold Limits.checkPublicKey
    split
    · exact rfl
    · trivial
  refine (attempt_intact hsig).bind fun parsed _ => (attempt_intact hkey).bind fun _ _ => ?_
  split
  · exact ⟨rfl, rfl⟩
  · exact fail_intact rfl
  · exact ⟨rfl, rfl⟩

theorem matchAll_intact (code : Bytes) (sigs keys : List Bytes) :
    Ends (fun r => r.2.stack = m.stack ∧ r.2.alt = m.alt) m.Intact (matchAll env code sigs keys m) := by
  refine matchAll_ends (I := fun m' => m'.stack = m.stack ∧ m'.alt = m.alt) (fun m' hm' sig key => ?_) ⟨rfl, rfl⟩ sigs keys
  refine ((checkOne_intact _ code sig key).mono_error fun _ h => h.of_same hm'.1 hm'.2).mono fun r hr => ?_
  exact ⟨hr.1.trans hm'.1, hr.2.trans hm'.2⟩

/-! ### Room for what was taken -/

/-- Both stacks are within the limit, or empty where it is negative. -/
def Fits (env : Env) (m : Machine) : Prop := (m.size : Int) ≤ env.limits.stackSize ∨ m.size = 0

theorem Fits.room (h : m.Fits env) (hpos : 0 < m.size) : (m.size : Int) ≤ env.limits.stackSize := by
  rcases h with h | h
  · exact h
  · omega

theorem exists_pushAll {items : List Bytes} (h : (m.size : Int) + items.length ≤ env.limits.stackSize) :
    ∃ m', m.pushAll env items = .ok m' := by
  unfold pushAll
  rw [requireRoom_eq_ok (u := ()).mpr h]
  exact ⟨_, rfl⟩

theorem ends_of_exists {E : Halt → Prop} {x : Except Halt Machine} (h : ∃ m', x = .ok m') : Ends (fun _ => True) E x := by
  obtain ⟨m', rfl⟩ := h
  trivial

section
variable (h : m.Fits env)
include h

theorem moveToTop_intact {depth count : Nat} (hle : count ≤ depth) :
    Ends (fun _ => True) m.Intact (m.moveToTop env depth count) := by
  refine (requireDepth_intact depth).bind fun _ hdepth => (pop_intact depth).bind fun below hbelow => ?_
  obtain ⟨-, rfl⟩ := hbelow
  rcases Nat.eq_zero_or_pos depth with rfl | hpos
  · refine (pushAll_intact _).mono_error fun _ hintact => hintact.of_same ?_ rfl
    rw [Nat.zero_sub]
    rfl
  · have hroom := h.room (by unfold size; omega)
    refine ends_of_exists (exists_pushAll ?_)
    unfold size at hroom ⊢
    simp only [List.length_append, List.length_take, List.length_drop]
    omega

theorem toAlt_intact (op : Opcode) : Ends (fun _ => True) m.Intact (m.perform env op .toAlt) := by
  refine (requireDepth_intact 1).bind fun _ hdepth => (peek_intact 0).bind fun item _ => ?_
  refine (pop_intact 1).bind fun below hbelow => ?_
  obtain ⟨-, rfl⟩ := hbelow
  have hroom := h.room (by unfold size; omega)
  unfold pushAllAlt
  rw [requireRoom_eq_ok (u := ()).mpr]
  · trivial
  · unfold size at hroom ⊢
    simp only [List.length_drop, List.length_singleton]
    omega

theorem fromAlt_intact (op : Opcode) : Ends (fun _ => True) m.Intact (m.perform env op .fromAlt) := by
  refine requireAlt_intact.bind fun _ _ => popAlt_intact.bind fun r hr => ?_
  have hlength : m.alt.length = r.2.alt.length + 1 := by
    rw [hr.1]
    rfl
  have hroom := h.room (by unfold size; omega)
  refine ends_of_exists (exists_pushAll ?_)
  rw [hr.2]
  unfold size at hroom ⊢
  simp only [List.length_singleton]
  omega

theorem equal_intact : Ends (fun _ => True) m.Intact (m.equal env) := by
  refine (requireDepth_intact 2).bind fun _ hdepth => (peek_intact 0).bind fun x _ => (peek_intact 1).bind fun y _ => ?_
  refine (pop_intact 2).bind fun below hbelow => ?_
  obtain ⟨-, rfl⟩ := hbelow
  have hroom := h.room (by unfold size; omega)
  refine ends_of_exists (exists_pushAll ?_)
  unfold size at hroom ⊢
  simp only [List.length_drop, List.length_singleton]
  omega

end

theorem numeric_intact (f : Numeric) : Ends (fun _ => True) m.Intact (m.numeric env f) := by
  refine (requireDepth_intact f.arity).bind fun _ hdepth => ?_
  refine (attempt_intact (Ends.mapM fun item _ => (Limits.number_early env.limits item).mono fun _ _ => trivial)).bind
    fun values hvalues => ?_
  have hcount : values.length = f.arity := by
    rw [hvalues.1, List.length_reverse, List.length_take]
    omega
  obtain ⟨r, happly, -⟩ := Numeric.apply_means hcount
  refine (attempt_intact (P := fun _ => True) ?_).bind fun item _ => (replace_intact _ item).mono fun _ _ => trivial
  rw [happly]
  exact Number.item_early r

theorem checkSig_intact : Ends (fun _ => True) m.Intact (m.checkSig env) := by
  refine (requireDepth_intact 2).bind fun _ _ => (peek_intact 0).bind fun key _ => (peek_intact 1).bind fun sig _ => ?_
  refine (attempt_intact (Limits.cleanCode_early sig m.code)).bind fun code _ => ?_
  refine (checkOne_intact _ code sig key).bind fun r hr => ?_
  exact ((replace_intact 2 _).mono_error fun _ h => h.of_same hr.1 hr.2).mono fun _ _ => trivial

theorem openIf_intact (negated : Bool) : Ends (fun _ => True) m.Intact (m.openIf negated) := by
  unfold openIf
  split
  · refine (requireDepth_intact 1).bind fun _ _ => (peek_intact 0).bind fun item _ => (pop_intact 1).bind fun _ _ => ?_
    trivial
  · trivial

theorem otherwise_intact : Ends (fun _ => True) m.Intact m.otherwise := by
  unfold otherwise
  split
  · exact fail_intact rfl
  · trivial

theorem closeIf_intact : Ends (fun _ => True) m.Intact m.closeIf := by
  unfold closeIf
  split
  · exact fail_intact rfl
  · trivial

theorem popVerify_intact : Ends (fun _ => True) m.Intact (m.popVerify .verify) := by
  refine (peek_intact 0).bind fun item _ => ?_
  split
  · exact (pop_intact 1).mono fun _ _ => trivial
  · exact fail_intact rfl

end Machine

/-! ### What is left -/

/-- The top item, if it is not the only one, gives a depth at which there is none below it. -/
structure OutOfRange (l : Limits) (n : Int) (below stack : List Bytes) : Prop where
  index : ∃ item, stack = item :: below ∧ l.number item = .ok n
  some_below : below ≠ []
  no_item : ¬(0 ≤ n ∧ n < below.length)

/-- The stack holds what a multiple check takes: as many keys and signatures as the numbers above them say, on a dummy. -/
inductive HoldsMultiple (l : Limits) (dummy : Bytes) (base : List Bytes) : List Bytes → Prop
  | intro {keyItem sigItem : Bytes} {keys sigs : List Bytes} (hkeys : l.number keyItem = .ok keys.length)
    (hsigs : l.number sigItem = .ok sigs.length) (hle : sigs.length ≤ keys.length) :
    HoldsMultiple l dummy base (operands keyItem sigItem dummy keys sigs base)

/-- What the comparison or check of a verification takes from the stack. -/
inductive Consumes (l : Limits) (base : List Bytes) : Verification → List Bytes → Prop
  | equal {x y : Bytes} : Consumes l base .equal (x :: y :: base)
  | numEqual {x y : Bytes} : Consumes l base .numEqual (x :: y :: base)
  | checkSig {key sig : Bytes} : Consumes l base .checkSig (key :: sig :: base)
  | checkMultiSig {dummy : Bytes} {stack : List Bytes} (h : HoldsMultiple l dummy base stack) :
    Consumes l base .checkMultiSig stack

/-- What the opcode of a verification does. -/
def Verification.action (v : Verification) : Action := .ofOpcode v.opcode

/-- Whether the top item gives the depth of the item that is meant. -/
def Action.isIndexed : Action → Bool
  | pick _ => true
  | _ => false

/-- Whether items may be taken before the action fails. -/
def Action.takesFirst : Action → Bool
  | pick _ | equalVerify | numEqualVerify | checkSigVerify | checkMultiSig | checkMultiSigVerify => true
  | _ => false

/-- What an opcode that fails leaves on the stacks. -/
inductive Leaves (l : Limits) (a : Action) (m : Machine) (halt : Halt) : Prop
  /-- All that was there, unless an index is out of range. -/
  | all (early : halt.fault.IsEarly) (inRange : a.isIndexed = true → ∀ n below, ¬OutOfRange l n below m.stack)
    (stack : halt.machine.stack = m.stack) (alt : halt.machine.alt = m.alt)
  /-- All but an index that is out of range. -/
  | belowIndex {remove : Bool} {n : Int} {below : List Bytes} (action : a = .pick remove)
    (outOfRange : OutOfRange l n below m.stack)
    (fault : halt.fault = .pickRange (if remove then Opcode.opRoll else Opcode.opPick) n below.length)
    (stack : halt.machine.stack = below) (alt : halt.machine.alt = m.alt)
  /-- A false result in place of what it was found from. -/
  | falseResult {v : Verification} {base : List Bytes} (action : a = v.action) (consumes : Consumes l base v m.stack)
    (fault : halt.fault = .failed v) (stack : halt.machine.stack = [] :: base) (alt : halt.machine.alt = m.alt)
  /-- A dummy that must be empty and is not, and all below it. -/
  | fromDummy {dummy : Bytes} {base : List Bytes} (action : a = .checkMultiSig ∨ a = .checkMultiSigVerify)
    (holds : HoldsMultiple l dummy base m.stack) (nonempty : dummy ≠ []) (fault : halt.fault = .nullDummy)
    (stack : halt.machine.stack = dummy :: base) (alt : halt.machine.alt = m.alt)

/-- A halt that leaves the stacks so, if it is by a script fault. -/
def Settles (l : Limits) (a : Action) (m : Machine) (halt : Halt) : Prop :=
  halt.fault.isScriptFault = true → Leaves l a m halt

namespace Machine
variable {env : Env} {m m' : Machine} {a : Action} {v : Verification}

theorem Intact.settles {l : Limits} {halt : Halt} (h : m.Intact halt) (ha : a.isIndexed = false) : Settles l a m halt :=
  fun _ => .all h.early (fun hindexed => absurd (ha.symm.trans hindexed) Bool.false_ne_true) h.stack h.alt

theorem pick_settles (h : m.Fits env) (remove : Bool) :
    Ends (fun _ => True) (Settles env.limits (.pick remove) m) (m.pick env remove) := by
  by_cases hdepth : m.stack.length < 2
  · -- too few items, so that there is none below the index
    have hfail : m.pick env remove = m.fail (.stackDepth m.stack.length 2) := by
      unfold pick
      rw [show m.requireDepth 2 = m.fail (.stackDepth m.stack.length 2) from if_pos (by omega)]
      rfl
    have hintact : Ends (fun _ => True) m.Intact (m.pick env remove) := by
      rw [hfail]
      exact fail_intact rfl
    refine hintact.mono_error fun _ hintact _ => .all hintact.early ?_ hintact.stack hintact.alt
    rintro - n below ⟨⟨item, hstack, -⟩, hsome, -⟩
    have hpos := List.length_pos_iff.mpr hsome
    rw [hstack, List.length_cons] at hdepth
    omega
  · obtain ⟨index, below, hstack⟩ := List.exists_cons_of_length_pos (show 0 < m.stack.length by omega)
    have hlength : m.stack.length = below.length + 1 := by
      rw [hstack]
      rfl
    have hsome : below ≠ [] := List.length_pos_iff.mp (by omega)
    cases hnumber : env.limits.number index with
    | error f =>
      have hearly := Limits.number_early env.limits index
      rw [hnumber] at hearly
      rw [pick_eq_refused remove hstack hsome hnumber]
      refine fun _ => .all hearly ?_ rfl rfl
      rintro - n below' ⟨⟨item, hstack', hnumber'⟩, -, -⟩
      obtain ⟨rfl, -⟩ := List.cons.inj (hstack.symm.trans hstack')
      rw [hnumber] at hnumber'
      cases hnumber'
    | ok n =>
      by_cases hrange : 0 ≤ n ∧ n < below.length
      · -- an item is put in place of the index, for which there is room
        rw [pick_eq remove hstack hsome, hnumber]
        show Ends _ _ (if _ then _ else _)
        rw [if_pos hrange]
        obtain ⟨item, -, hitem⟩ := peek_eq (m := { m with stack := below }) (i := n.toNat) (by dsimp only; omega)
        rw [hitem]
        refine ends_of_exists (exists_pushAll ?_)
        have hroom := h.room (by unfold size; omega)
        have herase := List.length_eraseIdx_le below n.toNat
        unfold size at hroom ⊢
        simp only [List.length_singleton]
        split <;> omega
      · have hpick := pick_eq_fail remove hstack hsome hnumber hrange
        unfold fail at hpick
        rcases Fault.reported_cases (.pickRange (if remove then Opcode.opRoll else Opcode.opPick) n below.length) with hf | hf
        · rw [hpick, hf]
          exact fun _ => .belowIndex rfl ⟨⟨index, hstack, hnumber⟩, hsome, hrange⟩ rfl rfl rfl
        · rw [hpick, hf]
          exact fun hscript => absurd hscript Bool.false_ne_true

/-! ### Results that must be true -/

/-- The result of the comparison or check of a verification is in place of what it was found from. -/
def Judged (l : Limits) (v : Verification) (m m' : Machine) : Prop :=
  ∃ base good, Consumes l base v m.stack ∧ m'.stack = Number.ofBool good :: base ∧ m'.alt = m.alt

theorem Judged.popVerify_settles {l : Limits} (h : Judged l v m m') :
    Ends (fun _ => True) (Settles l v.action m) (m'.popVerify v) := by
  obtain ⟨base, good, hconsumes, hstack, halt⟩ := h
  unfold popVerify
  rw [peek_bind (by rw [hstack]; rfl)]
  cases good with
  | true =>
    rw [if_pos (by decide), pop_eq (by rw [hstack]; exact Nat.succ_pos _)]
    trivial
  | false =>
    rw [if_neg (by decide)]
    exact fun _ => .falseResult rfl hconsumes rfl hstack halt

theorem equal_judged (h : m.equal env = .ok m') : Judged env.limits .equal m m' := by
  obtain ⟨x, y, base, hstack, -, rfl⟩ := equal_eq_ok.mp h
  exact ⟨base, x == y, hstack ▸ .equal, rfl, rfl⟩

theorem numEqual_judged (h : m.numeric env .equal = .ok m') : Judged env.limits .numEqual m m' := by
  have hdepth : 2 ≤ m.stack.length := by
    obtain ⟨_, hdepth, -⟩ := bind_eq_ok.mp h
    exact Int.ofNat_le.mp (requireDepth_eq_ok.mp hdepth)
  obtain ⟨x, rest, hstack⟩ := List.exists_cons_of_length_pos (Nat.lt_of_lt_of_le Nat.zero_lt_two hdepth)
  rw [hstack, List.length_cons] at hdepth
  obtain ⟨y, base, rfl⟩ := List.exists_cons_of_length_pos (Nat.le_of_succ_le_succ hdepth)
  rw [← Numeric.run_eq] at h
  have hoperands : m.stack = [y, x].reverse ++ base := hstack
  obtain ⟨-, r, hmeans, -, rfl⟩ := (Numeric.run_eq_ok_iff hoperands rfl).mp h
  refine ⟨base, r == 1, hstack ▸ .numEqual, ?_, rfl⟩
  cases hmeans with
  | tells _ htells =>
    rcases htells with ⟨-, rfl⟩ | ⟨-, rfl⟩
    · rfl
    · rfl

theorem checkSig_judged (h : m.checkSig env = .ok m') : Judged env.limits .checkSig m m' := by
  obtain ⟨key, sig, base, code, good, m₁, hstack, -, hone, rfl⟩ := checkSig_eq_ok.mp h
  obtain ⟨calls, rfl⟩ : ∃ calls, m₁ = _ := checkOne_calls hone
  exact ⟨base, good, hstack ▸ .checkSig, rfl, rfl⟩

theorem checkMultiSig_judged (h : m.checkMultiSig env = .ok m') : Judged env.limits .checkMultiSig m m' := by
  obtain ⟨_, _, dummy, keys, sigs, base, code, good, m₁, hstack, hkeys, -, -, hsigs, hle, -, hscan, -, rfl⟩ :=
    checkMultiSig_eq_ok.mp h
  obtain ⟨calls, rfl⟩ : ∃ calls, m₁ = _ := matchAll_calls hscan
  exact ⟨base, good, hstack ▸ .checkMultiSig (.intro hkeys hsigs hle), rfl, rfl⟩

theorem replaceDummy_settles {dummy item : Bytes} {base : List Bytes} (ha : a = .checkMultiSig ∨ a = .checkMultiSigVerify)
    (h : HoldsMultiple env.limits dummy base m.stack) (hstack : m'.stack = dummy :: base) (halt : m'.alt = m.alt) :
    Ends (fun _ => True) (Settles env.limits a m) (do
      m'.attempt (env.limits.checkNullDummy (← m'.peek 0))
      m'.replace 1 item) := by
  rw [peek_bind (by rw [hstack]; rfl), replace_eq (by rw [hstack]; exact Nat.succ_pos _)]
  unfold Limits.checkNullDummy
  split
  · rename_i hdummy
    exact fun _ => .fromDummy ha h hdummy.1 rfl hstack halt
  · trivial

theorem checkMultiSig_settles (ha : a = .checkMultiSig ∨ a = .checkMultiSigVerify) :
    Ends (fun _ => True) (Settles env.limits a m) (m.checkMultiSig env) := by
  have hindexed : a.isIndexed = false := by
    rcases ha with rfl | rfl
    · rfl
    · rfl
  have hintact : ∀ n halt, Intact { m with opCount := n } halt → Settles env.limits a m halt :=
    fun _ _ h => Intact.settles (m := m) (h.of_same rfl rfl) hindexed
  refine ((requireDepth_intact 1).mono_error (hintact m.opCount)).bind fun _ _ => ?_
  refine ((peek_intact 0).mono_error (hintact m.opCount)).bind fun keyItem hkeyItem => ?_
  refine ((attempt_intact (Limits.number_early _ keyItem)).mono_error (hintact m.opCount)).bind fun keyCount hkeyCount => ?_
  refine ((attempt_intact (Limits.checkPublicKeyCount_early _ keyCount)).mono_error (hintact m.opCount)).bind fun _ hkeys => ?_
  refine ((bump_intact keyCount).mono_error (hintact m.opCount)).bind fun m₁ hm₁ => ?_
  obtain ⟨count, rfl⟩ := hm₁
  refine ((requireDepth_intact _).mono_error (hintact count)).bind fun _ _ => ?_
  refine ((peek_intact _).mono_error (hintact count)).bind fun sigItem hsigItem => ?_
  refine ((attempt_intact (Limits.number_early _ sigItem)).mono_error (hintact count)).bind fun sigCount hsigCount => ?_
  split
  · refine Ends.mono_error (fail_intact ?_) (hintact count)
    exact rfl
  · rename_i hrange
    obtain ⟨hsigs, hle⟩ := Decidable.not_not.mp hrange
    refine ((requireDepth_intact _).mono_error (hintact count)).bind fun _ hdepth => ?_
    refine ((attempt_intact (Ends.foldlM (I := fun _ => True)
      (fun code sig _ _ => Limits.cleanCode_early sig code) trivial)).mono_error (hintact count)).bind fun code _ => ?_
    refine ((matchAll_intact code _ _).mono_error (hintact count)).bind fun r hr => ?_
    obtain ⟨n, rfl⟩ := Int.eq_ofNat_of_zero_le hkeys.1
    obtain ⟨k, rfl⟩ := Int.eq_ofNat_of_zero_le hsigs
    obtain ⟨keyItem', sigItem', dummy, keys, sigs, base, hstack, rfl, rfl⟩ :=
      exists_operands (s := m.stack) (n := n) (k := k) (by dsimp only at hdepth; omega)
    simp only [Int.toNat_natCast] at hsigItem ⊢
    rw [hstack, sigItem_operands] at hsigItem
    rw [hstack] at hkeyItem
    cases hkeyItem
    cases hsigItem
    rw [pop_bind (by rw [hr.1]; dsimp only at hdepth ⊢; omega)]
    have hholds : HoldsMultiple env.limits dummy base m.stack := by
      rw [hstack]
      exact .intro hkeyCount hsigCount (Int.ofNat_le.mp hle)
    have hleft : r.2.stack.drop (keys.length + sigs.length + 2) = dummy :: base := by
      rw [hr.1]
      dsimp only
      rw [hstack, drop_operands]
    exact replaceDummy_settles ha hholds hleft hr.2

/-- Most actions take nothing before they fail. -/
theorem perform_intact (h : m.Fits env) (op : Opcode) (ha : a.takesFirst = false) :
    Ends (fun _ => True) m.Intact (m.perform env op a) := by
  cases a with
  | nop | codeSeparator => trivial
  | openIf negated => exact openIf_intact negated
  | otherwise => exact otherwise_intact
  | closeIf => exact closeIf_intact
  | verify => exact (requireDepth_intact 1).bind fun _ _ => popVerify_intact
  | abort | invalid => exact fail_intact rfl
  | toAlt => exact toAlt_intact h op
  | fromAlt => exact fromAlt_intact h op
  | drop n => exact (requireDepth_intact n).bind fun _ _ => (pop_intact n).mono fun _ _ => trivial
  | dup n | dupBelow n => exact (requireDepth_intact _).bind fun _ _ => pushAll_intact _
  | rot n | swap n => exact moveToTop_intact h (by omega)
  | ifDup =>
    refine (requireDepth_intact 1).bind fun _ _ => (peek_intact 0).bind fun item _ => ?_
    split
    · exact pushAll_intact _
    · trivial
  | depth => exact (attempt_intact (Number.item_early _)).bind fun item _ => pushAll_intact _
  | nip =>
    refine (requireDepth_intact 2).bind fun _ _ => (peek_intact 0).bind fun item _ => ?_
    exact (replace_intact 2 item).mono fun _ _ => trivial
  | tuck =>
    refine (requireDepth_intact 2).bind fun _ _ => (peek_intact 0).bind fun item _ => ?_
    exact (requireRoom_intact 1).bind fun _ _ => trivial
  | size =>
    refine (requireDepth_intact 1).bind fun _ _ => (peek_intact 0).bind fun top _ => ?_
    exact (attempt_intact (Number.item_early _)).bind fun item _ => pushAll_intact _
  | equal => exact equal_intact h
  | numeric f => exact numeric_intact f
  | hash f =>
    refine (requireDepth_intact 1).bind fun _ _ => (peek_intact 0).bind fun item _ => ?_
    exact (replace_intact 1 _).mono fun _ _ => trivial
  | checkSig => exact checkSig_intact
  | upgradeableNop =>
    have hnop : Ends (fun _ => True) Fault.IsEarly (env.limits.checkNop op) := by
      unfold Limits.checkNop
      split
      · exact rfl
      · trivial
    exact (attempt_intact hnop).bind fun _ _ => trivial
  | pick _ | equalVerify | numEqualVerify | checkSigVerify | checkMultiSig | checkMultiSigVerify => cases ha

/-- A verification fails as its comparison or check does, or for a false result. -/
theorem verified_settles {x : Except Halt Machine} (hv : v.action.isIndexed = false) (hx : Ends (fun _ => True) m.Intact x)
    (hjudged : ∀ m', x = .ok m' → Judged env.limits v m m') :
    Ends (fun _ => True) (Settles env.limits v.action m) (x >>= popVerify v) := by
  refine (hx.mono_error fun _ hintact => hintact.settles hv).with_eq.bind fun m' hm' => ?_
  exact (hjudged m' hm'.2).popVerify_settles

theorem perform_settles (h : m.Fits env) (op : Opcode) (a : Action) :
    Ends (fun _ => True) (Settles env.limits a m) (m.perform env op a) := by
  cases a with
  | pick remove => exact pick_settles h remove
  | equalVerify => exact verified_settles (v := .equal) rfl (equal_intact h) fun _ => equal_judged
  | numEqualVerify => exact verified_settles (v := .numEqual) rfl (numeric_intact .equal) fun _ => numEqual_judged
  | checkSigVerify => exact verified_settles (v := .checkSig) rfl checkSig_intact fun _ => checkSig_judged
  | checkMultiSig => exact checkMultiSig_settles (.inl rfl)
  | checkMultiSigVerify =>
    refine (checkMultiSig_settles (.inr rfl)).with_eq.bind fun m' hm' => ?_
    exact (checkMultiSig_judged hm'.2).popVerify_settles
  | _ => exact (perform_intact h op rfl).mono_error fun _ hintact => hintact.settles rfl

/-! ### States within the limit -/

theorem Fits.of_le (h : m.Fits env) (hle : m'.size ≤ m.size) : m'.Fits env := by
  unfold Fits at h ⊢
  omega

theorem run_fits {ops : List Operation} (h : m.Fits env) (hrun : ops.foldlM (step env) m = .ok m') : m'.Fits env := by
  by_cases hlimit : 0 ≤ env.limits.stackSize
  · have hwithin : Within env.limits.stackSize m := by
      unfold Fits at h
      unfold Within
      omega
    have hends := run_within ops hwithin
    rw [hrun] at hends
    exact .inl hends
  · -- a limit of zero allows all that a negative one does, and keeps the stacks empty
    have hempty : m.size = 0 := by
      unfold Fits at h
      omega
    have hlooser : Looser { env.limits with stackSize := 0 } env.limits :=
      ⟨fun _ hf => hf, Int.le_refl _, Int.le_refl _, Int.le_refl _, Int.le_of_not_le hlimit, Int.le_refl _, Int.le_refl _⟩
    have hbelow := Below.foldlM (fun m o => hlooser.step env.sigCheck m o) ops m m' hrun
    have hends : StaysWithin 0 (ops.foldlM (step ⟨{ env.limits with stackSize := 0 }, env.sigCheck, env.hashes⟩) m) :=
      run_within ops (Int.le_of_eq (congrArg Int.ofNat hempty))
    rw [hbelow] at hends
    exact .inr (Nat.le_zero.mp (Int.ofNat_le.mp hends))

theorem begin_fits (h : m.Fits env) (script : Bytes) : (m.begin script).Fits env := h.of_le (Nat.le_add_right _ _)

theorem runScript_fits {script : Bytes} (h : m.Fits env) (hrun : m.runScript env script = .ok m') : m'.Fits env := by
  obtain ⟨-, ops, -, hops, -⟩ := runScript_eq_ok.mp hrun
  exact run_fits (begin_fits h script) hops

end Machine

/-! ### States that opcodes are performed in -/

open Machine

/-- An operation that pushes nothing is performed in a state: it has been counted, it is not disabled, and either all open
    conditions are executing or it belongs to a condition. -/
structure Acts (env : Env) (m : Machine) (o : Operation) (m' : Machine) : Prop where
  no_item : o.item? = none
  counted : count env o (m.begun o m.opCount) = .ok m'
  enabled : o.opcode.isDisabled = false
  active : m'.execute = true ∨ o.opcode.isConditional = true

/-- The opcodes that the evaluation of a spend performs, with the states that it performs them in. -/
inductive Performs (env : Env) (unlock lock : Bytes) : Opcode → Machine → Prop
  | intro {script : Bytes} {ops rest : List Operation} {o : Operation} {m₀ m m' : Machine}
    (allowed : env.limits.flags.has .requireSigPushOnly = true → Script.isPushOnly unlock = true)
    (begins : Begins env unlock lock script m₀) (short : (script.length : Int) ≤ env.limits.scriptSize)
    (operations : (Script.listing script).ops = ops ++ o :: rest)
    (reached : ops.foldlM (step env) (m₀.begin script) = .ok m) (acts : Acts env m o m') :
    Performs env unlock lock o.opcode m'

section
variable {env : Env} {unlock lock script : Bytes} {m m' : Machine} {o : Operation} {op : Opcode} {halt : Halt}

theorem Begins.fits (h : Begins env unlock lock script m) : m.Fits env := by
  have hempty : Machine.Fits env { } := .inr rfl
  cases h with
  | unlocking => exact hempty
  | locking hunlock => exact runScript_fits hempty hunlock
  | redeeming hunlock hlock _ hp2sh _ hleft =>
    refine (runScript_fits hempty hunlock).of_le ?_
    unfold size
    dsimp only
    rw [alt_of_isP2SH hp2sh.2 hlock, hleft, List.length_cons, List.length_nil]
    omega

theorem Acts.fits (h : Acts env m o m') (hm : m.Fits env) : m'.Fits env := by
  have hcount : Ends (fun m' => ∃ n, m' = m.begun o n) (fun _ => True) (count env o (m.begun o m.opCount)) :=
    count_ends fun _ _ => trivial
  rw [h.counted] at hcount
  obtain ⟨n, rfl⟩ := hcount
  exact hm.of_le (Nat.le_refl _)

theorem Performs.fits (h : Performs env unlock lock op m) : m.Fits env := by
  cases h with
  | intro _ begins _ _ reached acts => exact acts.fits (run_fits (begin_fits begins.fits _) reached)

theorem Acts.step_eq (h : Acts env m o m') : m.step env o = m'.perform env o.opcode (.ofOpcode o.opcode) := by
  have hitem : checkItem env o (m.advance o) = .ok () := by
    unfold checkItem
    rw [h.no_item]
  have hcounted : count env o { m.advance o with execute := (m.advance o).isExecuting } = .ok m' := h.counted
  have hexecute : execute1 env o m' = m'.perform env o.opcode (.ofOpcode o.opcode) := by
    unfold execute1
    rw [h.no_item]
  unfold step
  dsimp only
  rw [hitem]
  change (count env o _ >>= _) = _
  rw [hcounted]
  change (if o.opcode.isDisabled = true then _ else _) = _
  rw [h.enabled]
  change (if m'.execute = true then _ else _) = _
  rcases h.active with hactive | hactive
  · rw [if_pos hactive, hexecute]
  · split
    · exact hexecute
    · exact if_pos hactive

theorem runScript_eq_error {ops rest : List Operation} (short : (script.length : Int) ≤ env.limits.scriptSize)
    (operations : (Script.listing script).ops = ops ++ o :: rest)
    (reached : ops.foldlM (step env) (m.begin script) = .ok m') (h : m'.step env o = .error halt) :
    m.runScript env script = .error halt := by
  unfold runScript
  rw [if_neg (Int.not_lt.mpr short)]
  dsimp only
  rw [operations, List.foldlM_append, reached]
  change (List.foldlM (step env) m' (o :: rest) >>= _) = _
  rw [List.foldlM_cons, h]
  rfl

theorem Begins.spend_eq_error (h : Begins env unlock lock script m)
    (allowed : env.limits.flags.has .requireSigPushOnly = true → Script.isPushOnly unlock = true)
    (hrun : m.runScript env script = .error halt) : spend env unlock lock { } = .error halt := by
  unfold spend
  rw [if_neg fun hrefused => hrefused.2 (allowed hrefused.1)]
  cases h with
  | unlocking =>
    rw [hrun]
    rfl
  | locking hunlock =>
    rw [hunlock]
    change (runScript env lock m >>= _) = _
    rw [hrun]
    rfl
  | @redeeming unlocked locked script below hunlock hlock htrue hp2sh hpush hleft =>
    have hredeem : locked.redeem env unlock lock unlocked.stack = .error halt := by
      unfold redeem runRedeem
      rw [if_pos hp2sh, if_neg fun hn => hn hpush, hleft, requireDepth_bind (by rw [List.length_cons]; omega),
        peek_bind (x := script) rfl, pop_bind (Nat.succ_pos _)]
      change (runScript env script { locked with stack := below } >>= _) = _
      rw [hrun]
      rfl
    rw [hunlock]
    change (runScript env lock unlocked >>= _) = _
    rw [hlock]
    change (locked.requireTrueTop >>= _) = _
    rw [requireTrueTop_eq_ok (u := ()).mpr htrue]
    change (locked.redeem env unlock lock unlocked.stack >>= _) = _
    rw [hredeem]
    rfl

theorem Performs.spend_eq_error (h : Performs env unlock lock op m) (hfail : m.perform env op (.ofOpcode op) = .error halt) :
    spend env unlock lock { } = .error halt := by
  cases h with
  | intro allowed begins short operations reached acts =>
    exact begins.spend_eq_error allowed (runScript_eq_error short operations reached (acts.step_eq.trans hfail))

/-- An opcode that fails by a script fault, in a state that an evaluation performs opcodes in, leaves both stacks as they were
    or as one of the exceptions says, and the evaluation that it ends reports the stack that it leaves. -/
theorem evaluate_failed_opcode (env : Env) (unlock lock : Bytes) (performed : Opcode) (m : Machine)
    (h : Performs env unlock lock performed m) :
    (∀ op halt, m.perform env op (.ofOpcode op) = .error halt → halt.fault.isScriptFault = true →
      Leaves env.limits (.ofOpcode op) m halt) ∧
    ∀ halt, m.perform env performed (.ofOpcode performed) = .error halt → halt.fault.isScriptFault = true →
      evaluate env unlock lock = .ok ⟨some halt.fault, halt.machine.stack.reverse, halt.machine.calls.reverse⟩ := by
  constructor
  · intro op halt hfail hscript
    have hsettles := perform_settles h.fits op (.ofOpcode op)
    rw [hfail] at hsettles
    exact hsettles hscript
  · intro halt hfail hscript
    unfold evaluate Evaluation.ofRun
    rw [h.spend_eq_error hfail]
    exact if_pos hscript

end

/-- One key and an empty signature: the check has taken them and the dummy, and its false result is left on the item below. -/
theorem evaluate_failed_opcode_multisig :
    ∃ (m : Machine) (halt : Halt), Performs ⟨.default, none, .standard⟩ [0x57, 0, 0, 0x51, 0x52, 0x51] [0xaf] 0xaf m ∧
      m.perform ⟨.default, none, .standard⟩ 0xaf (.ofOpcode 0xaf) = .error halt ∧ halt.fault.isScriptFault = true ∧
      Leaves .default (.ofOpcode 0xaf) m halt ∧
      evaluate ⟨.default, none, .standard⟩ [0x57, 0, 0, 0x51, 0x52, 0x51] [0xaf] =
        .ok ⟨some (.failed .checkMultiSig), [[7], []], []⟩ := by
  have hperforms : ∃ m, Performs ⟨.default, none, .standard⟩ [0x57, 0, 0, 0x51, 0x52, 0x51] [0xaf] 0xaf m ∧
      ∃ halt, m.perform ⟨.default, none, .standard⟩ 0xaf (.ofOpcode 0xaf) = .error halt ∧ halt.fault = .failed .checkMultiSig ∧
        halt.machine.stack = [[], [7]] ∧ halt.machine.calls = [] := by
    refine ⟨_, .intro (o := .code 0xaf) (fun h => by cases h) (.locking rfl) (by decide) (List.nil_append _).symm rfl
      ⟨rfl, rfl, rfl, .inl rfl⟩, _, rfl, rfl, rfl, rfl⟩
  obtain ⟨m, hm, halt, hfail, hfault, hstack, hcalls⟩ := hperforms
  have hscript : halt.fault.isScriptFault = true := by
    rw [hfault]
    rfl
  obtain ⟨hleaves, hreports⟩ := evaluate_failed_opcode _ _ _ _ m hm
  refine ⟨m, halt, hm, hfail, hscript, hleaves _ halt hfail hscript, ?_⟩
  rw [hreports halt hfail hscript, hfault, hstack, hcalls]
  rfl

end SpendScript
