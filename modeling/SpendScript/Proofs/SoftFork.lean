import SpendScript.Proofs.Outcome

/-! # Soft forks

Limits with further flags or smaller numbers only refuse more. Every check of the limits either passes and leaves
no trace or faults, so each part of the machine does under looser limits whatever it does without a fault under
stricter ones (`Below`). One flag is different: `enableP2sh` adds a script to the evaluation, so it is followed
apart, together with the rule on the final stack that looks at what that script leaves. -/

namespace SpendScript

/-- Whatever `x` gives, `y` gives too. -/
def Below {ε α : Type} (x y : Except ε α) : Prop := ∀ a, x = .ok a → y = .ok a

namespace Below
variable {ε α β : Type}

theorem refl (x : Except ε α) : Below x x := fun _ h => h

theorem bind {x y : Except ε α} {f g : α → Except ε β} (h : Below x y) (k : ∀ a, Below (f a) (g a)) :
    Below (x >>= f) (y >>= g) := by
  intro b hb
  cases x with
  | error e => cases hb
  | ok a =>
    rw [h a rfl]
    exact k a b hb

/-- A check that lets pass what fulfils a condition. -/
theorem guard {p q : Prop} [Decidable p] [Decidable q] (h : p → q) {a : α} {e f : ε} :
    Below (if p then .ok a else .error e) (if q then .ok a else .error f) := by
  intro b hb
  split at hb
  · rename_i hp
    rw [if_pos (h hp)]
    exact hb
  · cases hb

/-- A check that refuses what fulfils a condition. -/
theorem refuse {p q : Prop} [Decidable p] [Decidable q] (h : q → p) {a : α} {e f : ε} :
    Below (if p then .error e else .ok a) (if q then .error f else .ok a) := by
  intro b hb
  split at hb
  · cases hb
  · rename_i hp
    rw [if_neg fun hq => hp (h hq)]
    exact hb

theorem foldlM {σ : Type} {f g : σ → α → Except ε σ} (h : ∀ s a, Below (f s a) (g s a)) (l : List α) (s : σ) :
    Below (l.foldlM f s) (l.foldlM g s) := by
  induction l generalizing s with
  | nil => exact refl _
  | cons a l ih =>
    rw [List.foldlM_cons, List.foldlM_cons]
    exact (h s a).bind ih

theorem mapM {f g : α → Except ε β} (h : ∀ a, Below (f a) (g a)) (l : List α) : Below (l.mapM f) (l.mapM g) := by
  induction l with
  | nil => exact refl _
  | cons a l ih =>
    rw [List.mapM_cons, List.mapM_cons]
    exact (h a).bind fun b => ih.bind fun bs => refl _

theorem defect {f g : Bool} (hfg : g = true → f = true) (fault : Fault) :
    Below (Limits.defect f fault) (Limits.defect g fault) :=
  refuse hfg

theorem attempt {x y : Except Fault α} (h : Below x y) (m : Machine) : Below (m.attempt x) (m.attempt y) := by
  intro a ha
  cases x with
  | error f => cases ha
  | ok b =>
    rw [h b rfl]
    exact ha

end Below

/-- `loose` allows all that `strict` allows: it has no further flag and no smaller limit. -/
structure Looser (loose strict : Limits) : Prop where
  flags : ∀ f, loose.flags.has f = true → strict.flags.has f = true
  scriptSize : strict.scriptSize ≤ loose.scriptSize
  itemSize : strict.itemSize ≤ loose.itemSize
  opsPerScript : strict.opsPerScript ≤ loose.opsPerScript
  stackSize : strict.stackSize ≤ loose.stackSize
  keysPerMultisig : strict.keysPerMultisig ≤ loose.keysPerMultisig
  numberLength : strict.numberLength ≤ loose.numberLength

namespace Looser
variable {loose strict : Limits} (h : Looser loose strict)
include h

/-! ### Checks of the limits -/

theorem checkNullDummy (dummy : Bytes) : Below (strict.checkNullDummy dummy) (loose.checkNullDummy dummy) :=
  .refuse fun hd => ⟨hd.1, h.flags _ hd.2⟩

theorem rejects {f g : Flag} (hr : (loose.flags.has f || loose.flags.has g) = true) :
    (strict.flags.has f || strict.flags.has g) = true := by
  rw [Bool.or_eq_true] at hr ⊢
  exact hr.imp (h.flags f) (h.flags g)

theorem checkSignature (sig : Bytes) (f : Flag) :
    Below (strict.checkSignature sig (.single f)) (loose.checkSignature sig (.single f)) := by
  unfold Limits.checkSignature
  split
  · exact .refl _
  · refine (Below.refl (Der.inspect sig)).bind fun encoding => ?_
    simp only [Flags.meets_single]
    cases encoding with
    | loose => exact .defect (h.flags f) _
    | strictHigh => exact .defect h.rejects _
    | strictLow =>
      dsimp only
      split
      · exact .refl _
      · exact .defect h.rejects _

theorem checkPublicKey (key : Bytes) : Below (strict.checkPublicKey key) (loose.checkPublicKey key) :=
  .refuse fun hk => ⟨h.flags _ hk.1, hk.2⟩

theorem checkPublicKeyCount (count : Int) :
    Below (strict.checkPublicKeyCount count) (loose.checkPublicKeyCount count) :=
  .guard fun hc => ⟨hc.1, Int.le_trans hc.2 h.keysPerMultisig⟩

theorem number (item : Bytes) : Below (strict.number item) (loose.number item) := by
  refine Below.bind (.guard fun hl => Int.le_trans hl h.numberLength) fun _ => ?_
  exact .refuse fun hm => ⟨h.flags _ hm.1, hm.2⟩

theorem checkItemSize (size : Int) : Below (strict.checkItemSize size) (loose.checkItemSize size) :=
  .guard fun hs => Int.le_trans hs h.itemSize

theorem checkPush (op : Int) (item : Bytes) : Below (strict.checkPush op item) (loose.checkPush op item) :=
  .refuse fun hp => ⟨h.flags _ hp.1, hp.2⟩

theorem checkNop (op : Opcode) : Below (strict.checkNop op) (loose.checkNop op) :=
  .refuse (h.flags _)

/-! ### Operations of a machine -/

variable (check : Option SigCheck) {hashes : Hashes} (m : Machine)

theorem requireRoom (count : Nat) :
    Below (m.requireRoom ⟨strict, check, hashes⟩ count) (m.requireRoom ⟨loose, check, hashes⟩ count) :=
  .refuse fun hr => Int.lt_of_le_of_lt h.stackSize hr

theorem pushAll (items : List Bytes) :
    Below (m.pushAll ⟨strict, check, hashes⟩ items) (m.pushAll ⟨loose, check, hashes⟩ items) :=
  (h.requireRoom check m _).bind fun _ => .refl _

theorem pushAllAlt (items : List Bytes) :
    Below (m.pushAllAlt ⟨strict, check, hashes⟩ items) (m.pushAllAlt ⟨loose, check, hashes⟩ items) :=
  (h.requireRoom check m _).bind fun _ => .refl _

theorem push (item : Bytes) : Below (m.push ⟨strict, check, hashes⟩ item) (m.push ⟨loose, check, hashes⟩ item) :=
  h.pushAll check m [item]

theorem bump (count : Int) : Below (m.bump ⟨strict, check, hashes⟩ count) (m.bump ⟨loose, check, hashes⟩ count) :=
  .refuse fun hb => Int.lt_of_le_of_lt h.opsPerScript hb

theorem checkOne (f : Flag) (code sig key : Bytes) :
    Below (m.checkOne ⟨strict, check, hashes⟩ (.single f) code sig key)
      (m.checkOne ⟨loose, check, hashes⟩ (.single f) code sig key) :=
  ((h.checkSignature sig f).attempt m).bind fun _ => ((h.checkPublicKey key).attempt m).bind fun _ => .refl _

theorem checkSig : Below (m.checkSig ⟨strict, check, hashes⟩) (m.checkSig ⟨loose, check, hashes⟩) := by
  refine (Below.refl _).bind fun _ => (Below.refl _).bind fun key => (Below.refl _).bind fun sig => ?_
  refine (Below.refl _).bind fun code => ?_
  exact (h.checkOne check m .requireStrictDer code sig key).bind fun _ => .refl _

theorem matchAll (code : Bytes) (sigs keys : List Bytes) :
    Below (Machine.matchAll ⟨strict, check, hashes⟩ code sigs keys m)
      (Machine.matchAll ⟨loose, check, hashes⟩ code sigs keys m) := by
  -- Each round uses up a key, whether or not it uses up a signature.
  induction keys generalizing sigs m with
  | nil => cases sigs <;> exact .refl _
  | cons key keys ih =>
    cases sigs with
    | nil => exact .refl _
    | cons sig sigs =>
      unfold Machine.matchAll
      split
      · exact .refl _
      · exact (h.checkOne check m .requireStrictDerMultisig code sig key).bind fun r => ih r.2 _

theorem checkMultiSig : Below (m.checkMultiSig ⟨strict, check, hashes⟩) (m.checkMultiSig ⟨loose, check, hashes⟩) := by
  refine (Below.refl _).bind fun _ => (Below.refl _).bind fun keyItem => ?_
  refine ((h.number keyItem).attempt m).bind fun keyCount => ?_
  refine ((h.checkPublicKeyCount keyCount).attempt m).bind fun _ => ?_
  refine (h.bump check m keyCount).bind fun m => ?_
  refine (Below.refl _).bind fun _ => (Below.refl _).bind fun sigItem => ?_
  refine ((h.number sigItem).attempt m).bind fun sigCount => ?_
  split
  · exact .refl _
  · refine (Below.refl _).bind fun _ => (Below.refl _).bind fun code => ?_
    refine (h.matchAll check m code _ _).bind fun r => ?_
    refine (Below.refl _).bind fun m => (Below.refl _).bind fun dummy => ?_
    exact ((h.checkNullDummy dummy).attempt m).bind fun _ => .refl _

theorem moveToTop (depth count : Nat) :
    Below (m.moveToTop ⟨strict, check, hashes⟩ depth count) (m.moveToTop ⟨loose, check, hashes⟩ depth count) :=
  (Below.refl _).bind fun _ => (Below.refl _).bind fun _ => h.pushAll check _ _

theorem pick (remove : Bool) : Below (m.pick ⟨strict, check, hashes⟩ remove) (m.pick ⟨loose, check, hashes⟩ remove) := by
  refine (Below.refl _).bind fun _ => (Below.refl _).bind fun item => ?_
  refine ((h.number item).attempt m).bind fun n => (Below.refl _).bind fun m => ?_
  split
  · exact (Below.refl _).bind fun item => h.push check _ item
  · exact .refl _

theorem equal : Below (m.equal ⟨strict, check, hashes⟩) (m.equal ⟨loose, check, hashes⟩) := by
  refine (Below.refl _).bind fun _ => (Below.refl _).bind fun _ => (Below.refl _).bind fun _ => ?_
  exact (Below.refl _).bind fun m => h.push check m _

theorem numeric (f : Numeric) : Below (m.numeric ⟨strict, check, hashes⟩ f) (m.numeric ⟨loose, check, hashes⟩ f) := by
  refine (Below.refl _).bind fun _ => ?_
  exact ((Below.mapM h.number _).attempt m).bind fun _ => .refl _

theorem perform (op : Opcode) (a : Action) :
    Below (m.perform ⟨strict, check, hashes⟩ op a) (m.perform ⟨loose, check, hashes⟩ op a) := by
  cases a with
  | nop | openIf | otherwise | closeIf | verify | abort | drop | nip | hash | codeSeparator | invalid => exact .refl _
  | toAlt =>
    refine (Below.refl _).bind fun _ => (Below.refl _).bind fun item => ?_
    exact (Below.refl _).bind fun m => h.pushAllAlt check m _
  | fromAlt => exact (Below.refl _).bind fun _ => (Below.refl _).bind fun r => h.push check r.2 r.1
  | dup n | dupBelow n => exact (Below.refl _).bind fun _ => h.pushAll check m _
  | rot n | swap n => exact h.moveToTop check m _ _
  | ifDup =>
    refine (Below.refl _).bind fun _ => (Below.refl _).bind fun item => ?_
    split
    · exact h.push check m item
    · exact .refl _
  | depth => exact (Below.refl _).bind fun item => h.push check m item
  | tuck =>
    refine (Below.refl _).bind fun _ => (Below.refl _).bind fun item => ?_
    exact (h.requireRoom check m 1).bind fun _ => .refl _
  | pick remove => exact h.pick check m remove
  | size =>
    refine (Below.refl _).bind fun _ => (Below.refl _).bind fun top => ?_
    exact (Below.refl _).bind fun item => h.push check m item
  | equal => exact h.equal check m
  | equalVerify => exact (h.equal check m).bind fun _ => .refl _
  | numeric f => exact h.numeric check m f
  | numEqualVerify => exact (h.numeric check m .equal).bind fun _ => .refl _
  | checkSig => exact h.checkSig check m
  | checkSigVerify => exact (h.checkSig check m).bind fun _ => .refl _
  | checkMultiSig => exact h.checkMultiSig check m
  | checkMultiSigVerify => exact (h.checkMultiSig check m).bind fun _ => .refl _
  | upgradeableNop => exact ((h.checkNop op).attempt m).bind fun _ => .refl _

/-! ### Runs -/

theorem step (op : Operation) : Below (m.step ⟨strict, check, hashes⟩ op) (m.step ⟨loose, check, hashes⟩ op) := by
  refine Below.bind ?_ fun _ => Below.bind ?_ fun m => ?_
  · unfold Machine.checkItem
    split
    · exact (h.checkItemSize _).attempt _
    · exact .refl _
  · unfold Machine.count
    split
    · exact h.bump check _ 1
    · exact .refl _
  · split
    · exact .refl _
    · split
      · unfold Machine.execute1
        split
        · exact ((h.checkPush _ _).attempt m).bind fun _ => h.push check m _
        · exact h.perform check m _ _
      · unfold Machine.skip1
        split
        · exact h.perform check m _ _
        · exact .refl _

theorem runScript (script : Bytes) :
    Below (m.runScript ⟨strict, check, hashes⟩ script) (m.runScript ⟨loose, check, hashes⟩ script) := by
  intro final hr
  unfold Machine.runScript at hr ⊢
  split at hr
  · cases hr
  · rename_i hs
    rw [if_neg fun hl => hs (Int.lt_of_le_of_lt h.scriptSize hl)]
    exact (Below.foldlM (fun m op => h.step check m op) _ _).bind (fun _ => .refl _) final hr

theorem runRedeem (unlock : Bytes) (left : List Bytes) :
    Below (m.runRedeem ⟨strict, check, hashes⟩ unlock left) (m.runRedeem ⟨loose, check, hashes⟩ unlock left) := by
  unfold Machine.runRedeem
  split
  · exact .refl _
  · refine (Below.refl _).bind fun _ => (Below.refl _).bind fun script => (Below.refl _).bind fun m => ?_
    exact (h.runScript check m script).bind fun _ => .refl _

theorem redeem (same : loose.flags.has .enableP2sh = strict.flags.has .enableP2sh) (unlock lock : Bytes)
    (left : List Bytes) :
    Below (m.redeem ⟨strict, check, hashes⟩ unlock lock left) (m.redeem ⟨loose, check, hashes⟩ unlock lock left) := by
  unfold Machine.redeem
  dsimp only
  rw [same]
  split
  · exact h.runRedeem check m unlock left
  · exact .refl _

/-- Without P2SH the looser evaluation stops at what the locking script has left, where the stricter one may go on;
    no rule on the final stack may be left then. With P2SH in both or in neither the ends are the same. -/
theorem spend {unlock lock : Bytes} {final : Machine} (hs : m.spend ⟨strict, check, hashes⟩ unlock lock = .ok final)
    (clean : loose.flags.has .requireCleanStack = true → strict.flags.has .enableP2sh = true →
      loose.flags.has .enableP2sh = true) :
    ∃ final', m.spend ⟨loose, check, hashes⟩ unlock lock = .ok final' ∧
      (loose.flags.has .enableP2sh = strict.flags.has .enableP2sh → final' = final) := by
  obtain ⟨hp, unlocked, locked, hu, hl, ht, hr, hc⟩ := Machine.spend_eq_ok.mp hs
  have hp' := fun hf => hp (h.flags _ hf)
  have hu' := h.runScript check m unlock unlocked hu
  have hl' := h.runScript check unlocked lock locked hl
  by_cases same : loose.flags.has .enableP2sh = strict.flags.has .enableP2sh
  · have hr' := h.redeem check locked same unlock lock unlocked.stack final hr
    exact ⟨final, Machine.spend_eq_ok.mpr ⟨hp', unlocked, locked, hu', hl', ht, hr', fun hf => hc (h.flags _ hf)⟩,
      fun _ => rfl⟩
  · -- Flags are only dropped, so P2SH is in `strict` alone.
    have off : loose.flags.has .enableP2sh = false := by
      cases hf : loose.flags.has .enableP2sh with
      | false => rfl
      | true => exact absurd (hf.trans (h.flags _ hf).symm) same
    have on : strict.flags.has .enableP2sh = true := by
      cases hf : strict.flags.has .enableP2sh with
      | false => exact absurd (off.trans hf.symm) same
      | true => rfl
    have hr' : locked.redeem ⟨loose, check, hashes⟩ unlock lock unlocked.stack = .ok locked :=
      if_neg fun hf => by rw [off] at hf; exact absurd hf.1 (by decide)
    refine ⟨locked, Machine.spend_eq_ok.mpr ⟨hp', unlocked, locked, hu', hl', ht, hr', fun hf => ?_⟩,
      fun hsame => absurd hsame same⟩
    rw [clean hf on] at off
    cases off

end Looser

/-- What stricter limits let succeed, looser ones let succeed, with the same final stack unless only one of them
    evaluates redeem scripts. -/
theorem evaluate_success_of_looser {loose strict : Limits} (h : Looser loose strict)
    (clean : loose.flags.has .requireCleanStack = true → strict.flags.has .enableP2sh = true →
      loose.flags.has .enableP2sh = true)
    (check : Option SigCheck) (hashes : Hashes) (unlock lock : Bytes) (e : Evaluation)
    (he : evaluate ⟨strict, check, hashes⟩ unlock lock = .ok e) (hs : e.success = true) :
    ∃ e', evaluate ⟨loose, check, hashes⟩ unlock lock = .ok e' ∧ e'.success = true ∧
      (loose.flags.has .enableP2sh = strict.flags.has .enableP2sh → e'.stack = e.stack) := by
  obtain ⟨final, hf, rfl⟩ := evaluate_success.mp ⟨he, hs⟩
  obtain ⟨final', hf', same⟩ := h.spend check { } hf clean
  obtain ⟨he', hs'⟩ := evaluate_success.mpr ⟨final', hf', rfl⟩
  exact ⟨_, he', hs', fun heq => by rw [same heq]⟩

/-- One and one is two under the flags of standard transactions, so also under those of blocks. -/
theorem evaluate_sum_of_looser :
    Looser .default { flags := .standard, numberLength := 1 } ∧
    ∃ e', evaluate ⟨.default, none, .standard⟩ [0x51] [0x51, 0x93, 0x52, 0x87] = .ok e' ∧ e'.success = true ∧
      e'.stack = [[1]] := by
  have h : Looser .default { flags := .standard, numberLength := 1 } :=
    ⟨fun f => by cases f <;> decide, by decide, by decide, by decide, by decide, by decide, by decide⟩
  obtain ⟨e', he', hs', same⟩ := evaluate_success_of_looser h (by decide) none .standard [0x51] [0x51, 0x93, 0x52, 0x87]
    ⟨none, [[1]], []⟩ (by rfl) (by rfl)
  exact ⟨h, e', he', hs', same (by decide)⟩

end SpendScript
