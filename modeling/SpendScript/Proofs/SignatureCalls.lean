import SpendScript.Proofs.CanonicalSignature
import SpendScript.Proofs.ScriptCode

/-! # What is asked of the signature check

A spend puts to the signature check only canonical signatures, under the flag only well-formed keys, and the script that is
running from its last executed `OP_CODESEPARATOR` on without the signatures that are being checked (`AsksIn`). Each of its
calls is made by the step of an operation that asks it in the state that the step begins in (`Makes`). A check that gives the
same answers to these questions leads to the same evaluation (`spend_asks`). All follow from comparing two runs under checks
that agree on what is asked (`Follows`). -/

namespace SpendScript

open Machine

/-! ### Two runs at once -/

/-- Two outcomes are the same one, whose result fulfils `P` or whose failure fulfils `E`. -/
structure Follows {ε α : Type} (P : α → Prop) (E : ε → Prop) (x x' : Except ε α) : Prop where
  same : x' = x
  ends : Ends P E x

/-- Two runs end alike, and the state that they end in, by a halt or not, is as `I` says. -/
abbrev FollowsIn (I : Machine → Prop) (x x' : Except Halt Machine) : Prop := Follows I (fun halt => I halt.machine) x x'

namespace Follows
variable {ε α β : Type} {P : α → Prop} {Q : β → Prop} {E : ε → Prop}

theorem refl {x : Except ε α} (h : Ends P E x) : Follows P E x x := ⟨rfl, h⟩

theorem bind {x x' : Except ε α} {f f' : α → Except ε β} (h : Follows P E x x')
    (k : ∀ a, x = .ok a → P a → Follows Q E (f a) (f' a)) : Follows Q E (x >>= f) (x' >>= f') := by
  obtain ⟨rfl, hends⟩ := h
  cases x' with
  | error e => exact .refl hends
  | ok a => exact k a rfl hends

theorem ite {p : Prop} [Decidable p] {x x' y y' : Except ε α} (hx : p → Follows P E x x') (hy : ¬p → Follows P E y y') :
    Follows P E (if p then x else y) (if p then x' else y') := by
  by_cases hp : p
  · rw [if_pos hp, if_pos hp]
    exact hx hp
  · rw [if_neg hp, if_neg hp]
    exact hy hp

/-- Runs go on alike if their steps do in every state that the first of them comes to. -/
theorem foldlM {σ : Type} {I : σ → Prop} {f f' : σ → α → Except ε σ} {l : List α} {s₀ : σ}
    (h : ∀ n a s, l[n]? = some a → (l.take n).foldlM f s₀ = .ok s → I s → Follows I E (f s a) (f' s a)) (hs : I s₀) :
    Follows I E (l.foldlM f s₀) (l.foldlM f' s₀) := by
  induction l generalizing s₀ with
  | nil => exact .refl hs
  | cons a l ih =>
    rw [List.foldlM_cons, List.foldlM_cons]
    refine (h 0 a s₀ rfl rfl hs).bind fun s hstep hs => ih (fun n b s' hb hrun => ?_) hs
    refine h (n + 1) b s' hb ?_
    rw [List.take_succ_cons, List.foldlM_cons, hstep]
    exact hrun

end Follows

/-! ### Questions -/

/-- The keys and the signatures that an action takes from a stack to check. -/
inductive Action.Checks (l : Limits) : Action → List Bytes → List Bytes → List Bytes → Prop
  | one {a : Action} (ha : a = .checkSig ∨ a = .checkSigVerify) (key sig : Bytes) (rest : List Bytes) :
    Checks l a (key :: sig :: rest) [key] [sig]
  | many {a : Action} (ha : a = .checkMultiSig ∨ a = .checkMultiSigVerify) {keyItem sigItem dummy : Bytes}
    {keys sigs rest : List Bytes} (keyCount : l.number keyItem = .ok keys.length)
    (sigCount : l.number sigItem = .ok sigs.length) : Checks l a (operands keyItem sigItem dummy keys sigs rest) keys sigs

/-- What an action asks of the signature check, where signatures commit to some script code. -/
structure Action.Asks (l : Limits) (a : Action) (stack : List Bytes) (whole code key : Bytes) (sig : TxSignature) :
    Prop where
  operands : ∃ keys sigs bytes, a.Checks l stack keys sigs ∧ key ∈ keys ∧ bytes ∈ sigs ∧
    TxSignature.ofBytes bytes = .ok sig ∧ code = Script.withoutAll (sigs.map Push.operation) whole
  canonical : sig.Canonical
  encoding : l.flags.has .requireStrictEncoding = true → isPublicKey key = true

/-- A call holds the answer to what was asked. -/
def SigCall.IsAnswered (env : Env) (c : SigCall) : Prop := env.sigCheck.map (· c.code c.key c.sig) = some c.result

/-- All calls that have been made since some others are ones that were allowed, with their answers. -/
def Machine.Asked (env : Env) (base : List SigCall) (Q : Bytes → Bytes → TxSignature → Prop) (m : Machine) : Prop :=
  ∃ added, m.calls = added ++ base ∧ ∀ c ∈ added, Q c.code c.key c.sig ∧ c.IsAnswered env

theorem checkPublicKey_eq_ok {l : Limits} {key : Bytes} {u : Unit} : l.checkPublicKey key = .ok u ↔
    (l.flags.has .requireStrictEncoding = true → isPublicKey key = true) := by
  refine refuse_eq_ok.trans ⟨fun h hf => ?_, fun h hf => hf.2 (h hf.1)⟩
  exact Decidable.byContradiction fun hn => h ⟨hf, hn⟩

namespace Action
variable {l : Limits} {a : Action} {stack : List Bytes}

theorem Checks.of_peek (ha : a = .checkSig ∨ a = .checkSigVerify) {key sig : Bytes} (hkey : stack[0]? = some key)
    (hsig : stack[1]? = some sig) : a.Checks l stack [key] [sig] := by
  obtain ⟨below, rfl⟩ := eq_cons_of_getElem? hkey
  rw [List.getElem?_cons_succ] at hsig
  obtain ⟨rest, rfl⟩ := eq_cons_of_getElem? hsig
  exact .one ha key sig rest

theorem Checks.of_counts (ha : a = .checkMultiSig ∨ a = .checkMultiSigVerify) {keyItem sigItem : Bytes} {n k : Int}
    (hkeyItem : stack[0]? = some keyItem) (hkeys : l.number keyItem = .ok n) (hn : 0 ≤ n)
    (hsigItem : stack[n.toNat + 1]? = some sigItem) (hsigs : l.number sigItem = .ok k) (hk : 0 ≤ k)
    (hdepth : n + k + 3 ≤ stack.length) :
    a.Checks l stack ((stack.drop 1).take n.toNat) ((stack.drop (n.toNat + 2)).take k.toNat) := by
  obtain ⟨n, rfl⟩ := Int.eq_ofNat_of_zero_le hn
  obtain ⟨k, rfl⟩ := Int.eq_ofNat_of_zero_le hk
  obtain ⟨keyItem', sigItem', dummy, keys, sigs, rest, rfl, rfl, rfl⟩ :=
    exists_operands (s := stack) (n := n) (k := k) (by omega)
  simp only [Int.toNat_natCast, sigItem_operands] at hsigItem
  cases hkeyItem
  cases hsigItem
  simp only [Int.toNat_natCast, keys_operands, sigs_operands]
  exact .many ha hkeys hsigs

end Action

/-! ### Signature checks -/

section
variable {base : List SigCall} {Q : Bytes → Bytes → TxSignature → Prop} {env : Env} {m : Machine}

theorem asked_self : m.Asked env m.calls Q := ⟨[], rfl, List.forall_mem_nil _⟩

theorem Machine.Asked.cons (hm : m.Asked env base Q) {c : SigCall} (hc : Q c.code c.key c.sig) (hanswer : c.IsAnswered env) :
    Asked env base Q { m with calls := c :: m.calls } := by
  obtain ⟨added, hcalls, hadded⟩ := hm
  exact ⟨c :: added, congrArg (c :: ·) hcalls, List.forall_mem_cons.mpr ⟨⟨hc, hanswer⟩, hadded⟩⟩

theorem asked_of_shows (hm : m.Asked env base Q) {x : Except Halt Machine} (h : Shows Machine.calls m.calls x) :
    Ends (Asked env base Q) (fun halt => halt.machine.Asked env base Q) x := by
  obtain ⟨added, hcalls, hadded⟩ := hm
  cases x with
  | ok m' => exact ⟨added, Eq.trans h hcalls, hadded⟩
  | error halt => exact ⟨added, Eq.trans h hcalls, hadded⟩

theorem pop_asked (hm : m.Asked env base Q) (n : Nat) :
    Ends (Asked env base Q) (fun halt => halt.machine.Asked env base Q) (m.pop n) :=
  asked_of_shows hm (pop_shows (fun _ _ _ => rfl) rfl n)

theorem replace_asked (hm : m.Asked env base Q) (n : Nat) (item : Bytes) :
    Ends (Asked env base Q) (fun halt => halt.machine.Asked env base Q) (m.replace n item) :=
  asked_of_shows hm (replace_shows (fun _ _ _ => rfl) rfl n item)

end

section
variable {env : Env} {check' : Option SigCheck} {base : List SigCall} {Q : Bytes → Bytes → TxSignature → Prop} {m : Machine}
  (hagree : ∀ code key sig, Q code key sig → check'.map (· code key sig) = env.sigCheck.map (· code key sig))
  (hm : m.Asked env base Q)
include hagree hm

theorem checkOne_follows {code bytes key : Bytes} (strict : Flags)
    (hnew : ∀ sig, TxSignature.ofBytes bytes = .ok sig → sig.Canonical →
      (env.limits.flags.has .requireStrictEncoding = true → isPublicKey key = true) → Q code key sig) :
    Follows (fun r => (∃ calls, r.2 = { m with calls := calls }) ∧ r.2.Asked env base Q)
      (fun halt => halt.machine.Asked env base Q)
      (m.checkOne env strict code bytes key) (m.checkOne { env with sigCheck := check' } strict code bytes key) := by
  obtain ⟨limits, check, hashes⟩ := env
  refine (Follows.refl (attempt_ends (fun _ => hm) _)).bind fun parsed _ hparsed => ?_
  refine (Follows.refl (attempt_ends (fun _ => hm) _)).bind fun _ _ hkey => ?_
  cases parsed with
  | none => exact .refl ⟨⟨m.calls, rfl⟩, hm⟩
  | some sig =>
    obtain ⟨hread, hcanonical⟩ := Limits.canonical_of_checkSignature hparsed
    have hq := hnew sig hread hcanonical (checkPublicKey_eq_ok.mp hkey)
    have hsame := hagree code key sig hq
    cases check with
    | none =>
      cases check' with
      | none => exact .refl (fail_ends (fun _ => hm) _)
      | some f' => cases hsame
    | some f =>
      cases check' with
      | none => cases hsame
      | some f' =>
        have hanswer : f' code key sig = f code key sig := Option.some.inj hsame
        refine ⟨?_, ⟨_, rfl⟩, hm.cons hq rfl⟩
        dsimp only
        rw [hanswer]

theorem matchAll_follows {code : Bytes} {sigs keys : List Bytes}
    (hnew : ∀ bytes ∈ sigs, ∀ key ∈ keys, ∀ sig, TxSignature.ofBytes bytes = .ok sig → sig.Canonical →
      (env.limits.flags.has .requireStrictEncoding = true → isPublicKey key = true) → Q code key sig) :
    Follows (fun r => r.2.Asked env base Q) (fun halt => halt.machine.Asked env base Q)
      (matchAll env code sigs keys m) (matchAll { env with sigCheck := check' } code sigs keys m) := by
  induction keys generalizing sigs m with
  | nil => cases sigs <;> exact .refl hm
  | cons key keys ih =>
    cases sigs with
    | nil => exact .refl hm
    | cons first sigs =>
      unfold matchAll
      refine .ite (fun _ => .refl hm) fun _ => ?_
      refine (checkOne_follows hagree hm _ (hnew first List.mem_cons_self key List.mem_cons_self)).bind fun r _ hr => ?_
      -- a signature that found its key is not tried again
      exact ih hr.2 fun bytes hbytes key' hkey' => hnew bytes (mem_of_mem_left hbytes) key' (List.mem_cons_of_mem key hkey')

theorem checkSig_follows {a : Action} (ha : a = .checkSig ∨ a = .checkSigVerify)
    (hq : ∀ code key sig, a.Asks env.limits m.stack m.code code key sig → Q code key sig) :
    FollowsIn (Asked env base Q) (m.checkSig env) (m.checkSig { env with sigCheck := check' }) := by
  refine (Follows.refl (requireDepth_ends (fun _ => hm) _)).bind fun _ _ _ => ?_
  refine (Follows.refl (peek_ends (fun _ => hm) 0)).bind fun key _ hkey => ?_
  refine (Follows.refl (peek_ends (fun _ => hm) 1)).bind fun bytes _ hbytes => ?_
  refine (Follows.refl (attempt_ends (fun _ => hm) _)).bind fun code _ hcode => ?_
  have hclean : code = Script.withoutAll ([bytes].map Push.operation) m.code := by
    rw [(cleanCode_eq_ok.mp hcode).2]
    exact (Script.withoutAll_singleton _ _).symm
  refine (checkOne_follows hagree hm _ fun sig hread hcanonical hencoding => hq code key sig ?_).bind fun r _ hr => ?_
  · exact ⟨⟨_, _, bytes, .of_peek ha hkey hbytes, List.mem_singleton_self key, List.mem_singleton_self bytes, hread, hclean⟩,
      hcanonical, hencoding⟩
  · exact .refl (replace_asked hr.2 2 _)

theorem checkMultiSig_follows {a : Action} (ha : a = .checkMultiSig ∨ a = .checkMultiSigVerify)
    (hq : ∀ code key sig, a.Asks env.limits m.stack m.code code key sig → Q code key sig) :
    FollowsIn (Asked env base Q) (m.checkMultiSig env) (m.checkMultiSig { env with sigCheck := check' }) := by
  refine (Follows.refl (requireDepth_ends (fun _ => hm) _)).bind fun _ _ _ => ?_
  refine (Follows.refl (peek_ends (fun _ => hm) 0)).bind fun keyItem _ hkeyItem => ?_
  refine (Follows.refl (attempt_ends (fun _ => hm) _)).bind fun n _ hkeys => ?_
  refine (Follows.refl (attempt_ends (fun _ => hm) _)).bind fun _ _ hrange => ?_
  refine (Follows.refl (bump_ends (fun _ _ => hm) n)).bind fun counted _ hcounted => ?_
  obtain ⟨count, rfl⟩ := hcounted
  refine (Follows.refl (requireDepth_ends (fun _ => hm) _)).bind fun _ _ _ => ?_
  refine (Follows.refl (peek_ends (fun _ => hm) _)).bind fun sigItem _ hsigItem => ?_
  refine (Follows.refl (attempt_ends (fun _ => hm) _)).bind fun k _ hsigs => ?_
  refine .ite (fun _ => .refl (fail_ends (fun _ => hm) _)) fun hk => ?_
  refine (Follows.refl (requireDepth_ends (fun _ => hm) _)).bind fun _ _ hdepth => ?_
  refine (Follows.refl (attempt_ends (fun _ => hm) _)).bind fun code _ hcode => ?_
  have hchecks := Action.Checks.of_counts ha hkeyItem hkeys (checkPublicKeyCount_eq_ok.mp hrange).1 hsigItem hsigs
    (Decidable.not_not.mp hk).1 hdepth
  have hclean : code = Script.withoutAll
      (((m.stack.drop (n.toNat + 2)).take k.toNat).map Push.operation) m.code := by
    rw [(foldlM_cleanCode_eq_ok.mp hcode).2]
    refine Script.withoutAll_congr (fun o => ?_) _
    simp
  refine (matchAll_follows hagree (m := { m with opCount := count }) hm fun bytes hbytes key hkey sig hread hcanonical
    hencoding => hq code key sig ?_).bind fun r _ hr => ?_
  · exact ⟨⟨_, _, bytes, hchecks, hkey, hbytes, hread, hclean⟩, hcanonical, hencoding⟩
  · refine (Follows.refl (pop_asked hr _)).bind fun popped _ hpopped => ?_
    refine (Follows.refl (peek_ends (fun _ => hpopped) 0)).bind fun dummy _ _ => ?_
    refine (Follows.refl (attempt_ends (fun _ => hpopped) _)).bind fun _ _ _ => ?_
    exact .refl (replace_asked hpopped 1 _)

/-! ### Operations -/

omit hagree hm in
theorem perform_calls (op : Opcode) {a : Action} (hcheck : a.isCheck = false) :
    Shows Machine.calls m.calls (m.perform env op a) := by
  cases hplain : a.isPlain with
  | false => exact perform_mark_shows (fun _ _ _ => rfl) rfl (fun _ _ => rfl) op hplain
  | true =>
    cases hstacks : a.isOnStacks with
    | true => exact perform_shows (fun _ _ _ => rfl) rfl op hstacks hcheck
    | false =>
      cases a with
      | codeSeparator => exact rfl
      | checkMultiSig | checkMultiSigVerify => cases hcheck
      | openIf _ | otherwise | closeIf => cases hplain
      | _ => cases hstacks

omit hagree in
theorem perform_follows_of_not_check (op : Opcode) {a : Action} (hcheck : a.isCheck = false) :
    FollowsIn (Asked env base Q) (m.perform env op a) (m.perform { env with sigCheck := check' } op a) := by
  refine ⟨?_, asked_of_shows hm (perform_calls op hcheck)⟩
  cases a with
  | checkSig | checkSigVerify | checkMultiSig | checkMultiSigVerify => cases hcheck
  | _ => rfl

theorem perform_follows (op : Opcode) {a : Action}
    (hq : ∀ code key sig, a.Asks env.limits m.stack m.code code key sig → Q code key sig) :
    FollowsIn (Asked env base Q) (m.perform env op a) (m.perform { env with sigCheck := check' } op a) := by
  cases hcheck : a.isCheck with
  | false => exact perform_follows_of_not_check hm op hcheck
  | true =>
    have hverify : ∀ (m' : Machine) (v : Verification), m'.Asked env base Q →
        FollowsIn (Asked env base Q) (m'.popVerify v) (m'.popVerify v) := fun m' v hm' =>
      .refl (asked_of_shows hm' (popVerify_shows (fun _ _ _ => rfl) rfl v))
    cases a with
    | checkSig => exact checkSig_follows hagree hm (.inl rfl) hq
    | checkSigVerify => exact (checkSig_follows hagree hm (.inr rfl) hq).bind fun m' _ hm' => hverify m' _ hm'
    | checkMultiSig => exact checkMultiSig_follows hagree hm (.inl rfl) hq
    | checkMultiSigVerify => exact (checkMultiSig_follows hagree hm (.inr rfl) hq).bind fun m' _ hm' => hverify m' _ hm'
    | _ => cases hcheck

theorem execute1_follows (o : Operation)
    (hq : ∀ code key sig, (Action.ofOpcode o.opcode).Asks env.limits m.stack m.code code key sig → Q code key sig) :
    FollowsIn (Asked env base Q) (execute1 env o m) (execute1 { env with sigCheck := check' } o m) := by
  unfold execute1
  cases o.item? with
  | none => exact perform_follows hagree hm o.opcode hq
  | some item =>
    refine (Follows.refl (attempt_ends (fun _ => hm) _)).bind fun _ _ _ => ?_
    exact .refl (asked_of_shows hm (push_shows (fun _ _ _ => rfl) rfl item))

omit hagree in
/-- An operation that is not executed asks nothing. -/
theorem skip1_follows (o : Operation) :
    FollowsIn (Asked env base Q) (skip1 env o m) (skip1 { env with sigCheck := check' } o m) := by
  unfold skip1
  refine .ite (fun hcond => perform_follows_of_not_check hm o.opcode ?_) fun _ => .refl hm
  rcases Opcode.isConditional_iff.mp hcond with hop | hop | hop | hop | hop | hop <;>
    · rw [hop]
      rfl

/-- The calls that a step makes are ones that its operation asks for, if it is executed. -/
theorem step_follows (o : Operation) (hq : m.isExecuting = true → ∀ code key sig,
      (Action.ofOpcode o.opcode).Asks env.limits m.stack m.code code key sig → Q code key sig) :
    FollowsIn (Asked env base Q) (m.step env o) (m.step { env with sigCheck := check' } o) := by
  have hcode : ∀ n, (m.begun o n).code = m.code := by
    intro n
    unfold Machine.code begun Machine.advance
    cases m.cursor <;> rfl
  refine (Follows.refl (checkItem_ends (fun _ => hm))).bind fun _ _ _ => ?_
  refine (Follows.refl (count_ends (fun _ _ => hm))).bind fun m' _ hm' => ?_
  obtain ⟨n, rfl⟩ := hm'
  refine .ite (fun _ => .refl (fail_ends (fun _ => hm) _)) fun _ => ?_
  refine .ite (fun hexec => ?_) fun _ => skip1_follows (m := m.begun o n) hm o
  refine execute1_follows hagree (m := m.begun o n) hm o fun code key sig hasks => hq hexec code key sig ?_
  rwa [hcode] at hasks

end

/-! ### Scripts and spends -/

/-- The state in which a run ends, by a halt or not. -/
def finalState : Except Halt Machine → Machine
  | .ok m => m
  | .error halt => halt.machine

theorem finalState_of_ends {I : Machine → Prop} {x : Except Halt Machine} (h : Ends I (fun halt => I halt.machine) x) :
    I (finalState x) := by
  cases x with
  | ok m => exact h
  | error halt => exact h

/-- The calls that the step of an operation adds where it is executed are ones that the operation asks for in the state that the
    step begins in. -/
theorem step_asks {env : Env} {m₀ m : Machine} {script : Bytes} {n : Nat} {o : Operation} (h : Executes env m₀ script n o m) :
    ∃ whole added, CodeAfter env m₀ script n whole ∧ (finalState (m.step env o)).calls = added ++ m.calls ∧
      ∀ c ∈ added, (Action.ofOpcode o.opcode).Asks env.limits m.stack whole c.code c.key c.sig := by
  have hstep := step_follows (fun _ _ _ _ => rfl) asked_self o fun _ code key sig
    (hasks : (Action.ofOpcode o.opcode).Asks env.limits m.stack m.code code key sig) => hasks
  obtain ⟨added, hcalls, hadded⟩ := finalState_of_ends hstep.ends
  exact ⟨m.code, added, code_of_reached h.reached, hcalls, fun c hc => (hadded c hc).1⟩

/-- An operation is executed in one of the scripts of a spend and asks something of the signature check there, for the part
    of that script that signatures commit to. -/
inductive AsksIn (env : Env) (unlock lock : Bytes) (m : Machine) (o : Operation) (code key : Bytes) (sig : TxSignature) : Prop
  | intro {script whole : Bytes} {m₀ : Machine} {n : Nat}
    (allowed : env.limits.flags.has .requireSigPushOnly = true → Script.isPushOnly unlock = true)
    (begins : Begins env unlock lock script m₀) (short : (script.length : Int) ≤ env.limits.scriptSize)
    (executed : Executes env m₀ script n o m) (commits : CodeAfter env m₀ script n whole)
    (asks : (Action.ofOpcode o.opcode).Asks env.limits m.stack whole code key sig) : AsksIn env unlock lock m o code key sig

/-- A spend makes a call after others: the step of an operation that asks it begins when at most these have been made, and ends
    when they and the call have been. -/
inductive Makes (env : Env) (unlock lock : Bytes) (earlier : List SigCall) (c : SigCall) : Prop
  | intro {m : Machine} {o : Operation} (asked : AsksIn env unlock lock m o c.code c.key c.sig) (answered : c.IsAnswered env)
    (begun : m.calls <:+ earlier) (made : c :: earlier <:+ (finalState (m.step env o)).calls) : Makes env unlock lock earlier c

/-- Every call of a state was made as `P` says after those before it. -/
def Machine.Recorded (P : List SigCall → SigCall → Prop) (m : Machine) : Prop :=
  ∀ c earlier, c :: earlier <:+ m.calls → P earlier c

section
variable {env : Env} {P : List SigCall → SigCall → Prop} {Q : Bytes → Bytes → TxSignature → Prop} {m m' : Machine}

theorem Machine.Recorded.of_asked (hm : m.Recorded P) (hasked : m'.Asked env m.calls Q)
    (hnew : ∀ c earlier, Q c.code c.key c.sig → c.IsAnswered env → m.calls <:+ earlier → c :: earlier <:+ m'.calls →
      P earlier c) :
    m'.Recorded P := by
  intro c earlier hmade
  obtain ⟨added, hcalls, hadded⟩ := hasked
  have hbase : m.calls <:+ m'.calls := ⟨added, hcalls.symm⟩
  rcases List.suffix_or_suffix_of_suffix hmade hbase with hold | hnewer
  · exact hm c earlier hold
  · rcases List.suffix_cons_iff.mp hnewer with heq | hbegun
    · exact hm c earlier (heq ▸ List.suffix_refl _)
    · -- the call stands above those that the step began with
      have hmem : c ∈ added := by
        obtain ⟨later, hlater⟩ := hmade
        obtain ⟨before, rfl⟩ := hbegun
        have hsplit : later ++ c :: before ++ m.calls = added ++ m.calls := by
          rw [← hcalls, ← hlater, List.append_assoc, List.cons_append]
        rw [← List.append_cancel_right hsplit]
        exact List.mem_append_right later List.mem_cons_self
      exact hnew c earlier (hadded c hmem).1 (hadded c hmem).2 hbegun hmade

theorem Follows.recorded {x x' : Except Halt Machine} (hm : m.Recorded P) (h : FollowsIn (Asked env m.calls Q) x x')
    (hnew : ∀ c earlier, Q c.code c.key c.sig → c.IsAnswered env → m.calls <:+ earlier →
      c :: earlier <:+ (finalState x).calls → P earlier c) :
    FollowsIn (Recorded P) x x' := by
  refine ⟨h.same, ?_⟩
  have hends := h.ends
  cases x with
  | ok m' => exact hm.of_asked hends hnew
  | error halt => exact hm.of_asked hends hnew

end

section
variable {env : Env} {check' : Option SigCheck} {unlock lock : Bytes}
  (hagree : ∀ m o code key sig, AsksIn env unlock lock m o code key sig →
    check'.map (· code key sig) = env.sigCheck.map (· code key sig))
include hagree

theorem runScript_follows {script : Bytes} {m : Machine}
    (hallowed : env.limits.flags.has .requireSigPushOnly = true → Script.isPushOnly unlock = true)
    (hbegins : Begins env unlock lock script m) (hm : m.Recorded (Makes env unlock lock)) :
    FollowsIn (Recorded (Makes env unlock lock)) (m.runScript env script)
      (m.runScript { env with sigCheck := check' } script) := by
  have hbegin : (m.begin script).Recorded (Makes env unlock lock) := hm
  refine .ite (fun _ => .refl (fail_ends (fun _ => hm) _)) fun hlong => ?_
  refine (Follows.foldlM (fun n o m' ho hrun hm' => ?_) hbegin).bind fun m' _ hm' => .refl ?_
  · have hasks : m'.isExecuting = true → ∀ code key sig,
        (Action.ofOpcode o.opcode).Asks env.limits m'.stack m'.code code key sig → AsksIn env unlock lock m' o code key sig :=
      fun hexec code key sig hasks =>
        .intro hallowed hbegins (Int.not_lt.mp hlong) ⟨ho, hrun, hexec⟩ (code_of_reached hrun) hasks
    exact .recorded hm' (step_follows (hagree m' o) asked_self o hasks) fun c earlier => .intro
  · unfold finish
    split
    · exact fail_ends (fun _ => hm') _
    · exact fail_ends (fun _ => hm') _
    · exact hm'

theorem redeem_follows {unlocked locked : Machine}
    (hallowed : env.limits.flags.has .requireSigPushOnly = true → Script.isPushOnly unlock = true)
    (hunlock : runScript env unlock { } = .ok unlocked) (hlock : unlocked.runScript env lock = .ok locked)
    (htrue : Number.isTrue locked.top = true) (hm : locked.Recorded (Makes env unlock lock)) :
    FollowsIn (Recorded (Makes env unlock lock)) (locked.redeem env unlock lock unlocked.stack)
      (locked.redeem { env with sigCheck := check' } unlock lock unlocked.stack) := by
  refine .ite (fun hp2sh => ?_) fun _ => .refl hm
  refine .ite (fun _ => .refl (fail_ends (fun _ => hm) _)) fun hpush => ?_
  refine (Follows.refl (requireDepth_ends (m := { locked with stack := unlocked.stack }) (fun _ => hm) 1)).bind
    fun _ _ _ => ?_
  refine (Follows.refl (peek_ends (fun _ => hm) 0)).bind fun script _ hscript => ?_
  obtain ⟨below, hleft⟩ := eq_cons_of_getElem? hscript
  refine (Follows.refl (pop_ends (fun _ => hm) 1)).bind fun popped _ hpopped => ?_
  obtain ⟨-, rfl⟩ := hpopped
  dsimp only at hleft ⊢
  rw [hleft]
  have hbegins : Begins env unlock lock script { locked with stack := below } :=
    .redeeming hunlock hlock htrue hp2sh (Decidable.not_not.mp hpush) hleft
  refine (runScript_follows hagree hallowed hbegins hm).bind fun m _ hm => ?_
  exact (Follows.refl (requireTrueTop_ends (fun _ => hm))).bind fun _ _ _ => .refl hm

theorem spend_follows :
    FollowsIn (Recorded (Makes env unlock lock)) (Machine.spend env unlock lock { })
      (Machine.spend { env with sigCheck := check' } unlock lock { }) := by
  have hnone : Recorded (Makes env unlock lock) { } := fun c earlier hmade =>
    absurd (List.suffix_nil.mp hmade) (List.cons_ne_nil c earlier)
  refine .ite (fun _ => .refl (fail_ends (fun _ => hnone) _)) fun hrefused => ?_
  have hallowed : env.limits.flags.has .requireSigPushOnly = true → Script.isPushOnly unlock = true := fun hflag =>
    Decidable.byContradiction fun hpush => hrefused ⟨hflag, hpush⟩
  refine (runScript_follows hagree hallowed .unlocking hnone).bind fun unlocked hunlock hu => ?_
  refine (runScript_follows hagree hallowed (.locking hunlock) hu).bind fun locked hlock hl => ?_
  refine (Follows.refl (requireTrueTop_ends (fun _ => hl))).bind fun _ _ htrue => ?_
  refine (redeem_follows hagree hallowed hunlock hlock htrue hl).bind fun m _ hm => ?_
  exact (Follows.refl (requireClean_ends (fun _ => hm))).bind fun _ _ _ => .refl hm

end

theorem spend_recorded (env : Env) (unlock lock : Bytes) :
    (finalState (Machine.spend env unlock lock { })).Recorded (Makes env unlock lock) := by
  have hspend := spend_follows fun _ _ _ _ _ (_ : AsksIn env unlock lock _ _ _ _ _) => rfl
  exact finalState_of_ends hspend.ends

/-- A step makes only the signature checks that its operation asks for where it is executed. Every signature check that a spend
    makes is made by such a step, with a canonical signature and, under the flag, a well-formed key; and a check that agrees on
    what operations ask leads to the same evaluation. -/
theorem spend_asks (env : Env) (unlock lock : Bytes) :
    (∀ script m₀ n o m, Executes env m₀ script n o m →
      ∃ whole added, CodeAfter env m₀ script n whole ∧ (finalState (m.step env o)).calls = added ++ m.calls ∧
        ∀ c ∈ added, (Action.ofOpcode o.opcode).Asks env.limits m.stack whole c.code c.key c.sig) ∧
    (∀ c earlier, c :: earlier <:+ (finalState (Machine.spend env unlock lock { })).calls →
      Makes env unlock lock earlier c ∧
      (0 ≤ c.sig.r ∧ c.sig.r < Der.curveOrder) ∧ (0 ≤ c.sig.s ∧ c.sig.s ≤ Der.halfOrder) ∧
      c.sig.sigHash.isDefined = true ∧ c.sig.toLowS = c.sig ∧ (∃ der, c.sig.toDer = .ok der) ∧
      (env.limits.flags.has .requireStrictEncoding = true → isPublicKey c.key = true)) ∧
    ∀ check check' : SigCheck, env.sigCheck = some check →
      (∀ m o code key sig, AsksIn env unlock lock m o code key sig → check' code key sig = check code key sig) →
      evaluate { env with sigCheck := some check' } unlock lock = evaluate env unlock lock := by
  refine ⟨fun script m₀ n o m => step_asks, ?_, ?_⟩
  · intro c earlier hmade
    have hmakes := spend_recorded env unlock lock c earlier hmade
    refine ⟨hmakes, ?_⟩
    obtain ⟨⟨-, -, -, -, -, -, hcanonical, hencoding⟩, -, -, -⟩ := hmakes
    exact ⟨hcanonical.r_range, hcanonical.s_range, hcanonical.defined, hcanonical.toLowS_eq, hcanonical.exists_toDer,
      hencoding⟩
  · intro check check' hcheck hagree
    have hanswers : ∀ m o code key sig, AsksIn env unlock lock m o code key sig →
        (some check').map (· code key sig) = env.sigCheck.map (· code key sig) := by
      intro m o code key sig hasks
      rw [hcheck]
      exact congrArg some (hagree m o code key sig hasks)
    have hsame := (spend_follows hanswers).same
    unfold evaluate
    rw [hsame]

/-- A signature of ones, and a key to try it with. -/
def onesSignature : Bytes := [0x30, 6, 2, 1, 1, 2, 1, 1, 1]

def zeroKey : Bytes := 3 :: List.replicate 32 0

/-- Two separators, of which the second is skipped, and a push of the signature before the check. -/
def separatedLock : Bytes := [0xab, 0x00, 0x63, 0xab, 0x68, 9] ++ onesSignature ++ [0x75, 33] ++ zeroKey ++ [0xac]

/-- The check is asked about the script from the first separator on, with the second one but without the signature. One
    that refuses a high `s` is never asked for such an `s`. -/
theorem spend_asks_separated :
    Makes ⟨.default, some fun _ _ _ => true, .standard⟩ (9 :: onesSignature) separatedLock []
      ⟨[0x00, 0x63, 0xab, 0x68, 0x75, 33] ++ zeroKey ++ [0xac], zeroKey, ⟨1, 1, .all⟩, true⟩ ∧
    evaluate ⟨.default, some fun _ _ sig => decide (sig.s ≤ Der.halfOrder), .standard⟩ (9 :: onesSignature) separatedLock =
      evaluate ⟨.default, some fun _ _ _ => true, .standard⟩ (9 :: onesSignature) separatedLock := by
  have hcalls : (finalState (Machine.spend ⟨.default, some fun _ _ _ => true, .standard⟩ (9 :: onesSignature) separatedLock
      { })).calls = [⟨[0x00, 0x63, 0xab, 0x68, 0x75, 33] ++ zeroKey ++ [0xac], zeroKey, ⟨1, 1, .all⟩, true⟩] := by
    decide +kernel
  refine ⟨((spend_asks _ _ _).2.1 _ [] (hcalls ▸ List.suffix_refl _)).1, ?_⟩
  refine (spend_asks ⟨.default, some fun _ _ _ => true, .standard⟩ _ _).2.2 _ _ rfl fun m o code key sig hasks => ?_
  obtain ⟨-, -, -, -, -, -, hcanonical, -⟩ := hasks
  exact decide_eq_true hcanonical.s_range.2

end SpendScript
