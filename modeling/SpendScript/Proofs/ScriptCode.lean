import SpendScript.Proofs.WellFormed
import SpendScript.Proofs.WrittenChecks

/-! # The script that signatures commit to

A signature commits to the running script from just after the last `OP_CODESEPARATOR` that was executed, or to the whole
script if none was; one in a branch that is skipped does not count (`Machine.code_of_reached`). Before a check its
signatures are deleted, one after another, which leaves out the shortest pushes of all of them
(`foldlM_cleanCode_eq_ok`). -/

namespace SpendScript

namespace Script

/-- A script goes on after its first operations with what stands behind their bytes. -/
theorem ofOps_take_append (script : Bytes) (n : Nat) : ofOps ((listing script).ops.take n) ++
    script.drop (ofOps ((listing script).ops.take n)).length = script := by
  have hsplit : ofOps ((listing script).ops.take n) ++ (ofOps ((listing script).ops.drop n) ++ (listing script).tail) =
      script := by
    rw [← List.append_assoc, ← ofOps_append, List.take_append_drop, ofOps_listing]
  have hprefix : ofOps ((listing script).ops.take n) <+: script := ⟨_, hsplit⟩
  exact List.prefix_iff_eq_append.mp hprefix

end Script

namespace Machine
variable {env : Env} {m m' m₀ : Machine} {o : Operation} {script : Bytes}

/-! ### The place in the script -/

theorem ofOpcode_ne_codeSeparator {op : Opcode} (h : op ≠ Opcode.opCodeSeparator) :
    Action.ofOpcode op ≠ .codeSeparator := by
  intro ha
  cases hmark : (Operation.code op).mark? with
  | some k =>
    have hop : op = k.operation.opcode := congrArg Operation.opcode (Operation.eq_of_mark? hmark)
    rw [hop] at ha
    cases k with
    | opens negated => cases negated <;> cases ha
    | separates | closes => cases ha
  | none =>
    cases hmulti : op.isMultisig with
    | true => rcases of_decide_eq_true hmulti with rfl | rfl <;> cases ha
    | false =>
      have hstacks := Action.isOnStacks_ofOpcode hmark h hmulti
      rw [ha] at hstacks
      cases hstacks

theorem perform_cursor {op : Opcode} {a : Action} (ha : a ≠ .codeSeparator) (h : m.perform env op a = .ok m') :
    m'.cursor = m.cursor := by
  cases hplain : a.isPlain with
  | false =>
    have hshows : Shows Machine.cursor m.cursor (m.perform env op a) :=
      perform_mark_shows (fun _ _ _ => rfl) rfl (fun _ _ => rfl) op hplain
    rw [h] at hshows
    exact hshows
  | true =>
    cases hstacks : a.isOnStacks with
    | true =>
      have hkeeps : Keeps m.control (m.perform env op a) := perform_control rfl op hstacks
      rw [h] at hkeeps
      exact cursor_of_control hkeeps
    | false =>
      cases a with
      | codeSeparator => exact absurd rfl ha
      | checkMultiSig =>
        exact cursor_of_control (m := { m with opCount := m.opCount + Number.decode m.top }) (checkMultiSig_control h).1
      | checkMultiSigVerify =>
        obtain ⟨m₁, hcheck, hverify⟩ := bind_eq_ok.mp h
        have hcontrol := (popVerify_eq_control hverify).trans (checkMultiSig_control hcheck).1
        exact cursor_of_control (m := { m with opCount := m.opCount + Number.decode m.top }) hcontrol
      | openIf _ | otherwise | closeIf => cases hplain
      | _ => cases hstacks

theorem execute1_cursor (hop : o.opcode ≠ Opcode.opCodeSeparator) (h : execute1 env o m = .ok m') :
    m'.cursor = m.cursor := by
  unfold execute1 at h
  split at h
  · obtain ⟨_, -, hpush⟩ := bind_eq_ok.mp h
    obtain ⟨-, rfl⟩ := push_eq_ok.mp hpush
    rfl
  · exact perform_cursor (ofOpcode_ne_codeSeparator hop) h

theorem execute1_separator (hop : o.opcode = Opcode.opCodeSeparator) (h : execute1 env o m = .ok m') :
    m'.cursor = m.cursor.map Cursor.separate := by
  unfold execute1 at h
  split at h
  · rename_i item hitem
    have hle := Operation.toNat_opcode_le hitem
    rw [hop] at hle
    exact absurd hle (by decide)
  · rw [hop] at h
    cases h
    rfl

theorem skip1_cursor (h : skip1 env o m = .ok m') : m'.cursor = m.cursor := by
  unfold skip1 at h
  split at h
  · rename_i hcond
    refine perform_cursor (ofOpcode_ne_codeSeparator ?_) h
    intro hop
    rw [hop] at hcond
    cases hcond
  · cases h
    rfl

/-- An `OP_CODESEPARATOR` that is executed sets the place just after it. -/
theorem step_separates (hexec : m.isExecuting = true) (hop : o.opcode = Opcode.opCodeSeparator)
    (h : m.step env o = .ok m') : m'.cursor = m.cursor.map fun c => (c.advance o.size).separate := by
  obtain ⟨-, -, -, hact⟩ := step_eq_ok.mp h
  rw [if_pos hexec] at hact
  exact (execute1_separator hop hact).trans (Option.map_map _ _ _)

theorem step_advances_cursor (hno : ¬(m.isExecuting = true ∧ o.opcode = Opcode.opCodeSeparator))
    (h : m.step env o = .ok m') : m'.cursor = m.cursor.map (·.advance o.size) := by
  obtain ⟨-, -, -, hact⟩ := step_eq_ok.mp h
  split at hact
  · rename_i hexec
    exact execute1_cursor (fun hop => hno ⟨hexec, hop⟩) hact
  · exact skip1_cursor hact

/-! ### Executed separators -/

/-- An operation of a script is executed: those before it lead to a state in which all open conditions are executing. -/
structure Executes (env : Env) (m₀ : Machine) (script : Bytes) (n : Nat) (o : Operation) (m : Machine) : Prop where
  operation : (Script.listing script).ops[n]? = some o
  reached : ((Script.listing script).ops.take n).foldlM (step env) (m₀.begin script) = .ok m
  executing : m.isExecuting = true

/-- The operation with a number is an `OP_CODESEPARATOR`, and it is executed. -/
def Separates (env : Env) (m₀ : Machine) (script : Bytes) (n : Nat) : Prop :=
  ∃ o m, Executes env m₀ script n o m ∧ o.opcode = Opcode.opCodeSeparator

/-- The part of a script that signatures commit to when a number of its operations have been taken. -/
inductive CodeAfter (env : Env) (m₀ : Machine) (script : Bytes) : Nat → Bytes → Prop
  | whole {n : Nat} (none : ∀ k < n, ¬Separates env m₀ script k) : CodeAfter env m₀ script n script
  | rest {n k : Nat} {code : Bytes} (taken : k < n) (executed : Separates env m₀ script k)
    (last : ∀ j, k < j → j < n → ¬Separates env m₀ script j)
    (split : Script.ofOps ((Script.listing script).ops.take (k + 1)) ++ code = script) : CodeAfter env m₀ script n code

theorem CodeAfter.succ {n : Nat} {code : Bytes} (h : CodeAfter env m₀ script n code)
    (hn : ¬Separates env m₀ script n) : CodeAfter env m₀ script (n + 1) code := by
  have hnext : ∀ k, k < n + 1 → (k < n → ¬Separates env m₀ script k) → ¬Separates env m₀ script k := by
    intro k hk hbefore
    rcases Nat.lt_or_eq_of_le (Nat.le_of_lt_succ hk) with hk | rfl
    · exact hbefore hk
    · exact hn
  cases h with
  | whole none => exact .whole fun k hk => hnext k hk (none k)
  | rest taken executed last split =>
    exact .rest (Nat.lt_succ_of_lt taken) executed (fun j hj hjn => hnext j hjn (last j hj)) split

/-- The cursor of a state that a script comes to: the place after the operations taken, and where the script code
    begins. -/
theorem cursor_of_reached {n : Nat}
    (h : ((Script.listing script).ops.take n).foldlM (step env) (m₀.begin script) = .ok m) :
    ∃ start, m.cursor = some ⟨script, (Script.ofOps ((Script.listing script).ops.take n)).length, start⟩ ∧
      CodeAfter env m₀ script n (script.drop start) := by
  induction n generalizing m with
  | zero =>
    cases h
    exact ⟨0, rfl, .whole fun k hk => absurd hk (Nat.not_lt_zero k)⟩
  | succ n ih =>
    cases ho : (Script.listing script).ops[n]? with
    | none =>
      have htake : (Script.listing script).ops.take (n + 1) = (Script.listing script).ops.take n := by
        rw [List.take_add_one, ho]
        exact List.append_nil _
      rw [htake] at h ⊢
      obtain ⟨start, hcursor, hcode⟩ := ih h
      refine ⟨start, hcursor, hcode.succ ?_⟩
      rintro ⟨o, m, hexec, -⟩
      cases ho.symm.trans hexec.operation
    | some o =>
      have htake : (Script.listing script).ops.take (n + 1) = (Script.listing script).ops.take n ++ [o] := by
        rw [List.take_add_one, ho]
        rfl
      have hrun := h
      rw [htake, List.foldlM_append] at hrun
      obtain ⟨m₁, hbefore, hlast⟩ := bind_eq_ok.mp hrun
      have hstep : m₁.step env o = .ok m := by simpa using hlast
      obtain ⟨start, hcursor, hcode⟩ := ih hbefore
      have hposition : (Script.ofOps ((Script.listing script).ops.take (n + 1))).length =
          (Script.ofOps ((Script.listing script).ops.take n)).length + o.size := by
        rw [htake, Script.ofOps_append, List.length_append, Script.ofOps_singleton, o.length_toBytes]
      by_cases hsep : m₁.isExecuting = true ∧ o.opcode = Opcode.opCodeSeparator
      · refine ⟨(Script.ofOps ((Script.listing script).ops.take (n + 1))).length, ?_, ?_⟩
        · rw [step_separates hsep.1 hsep.2 hstep, hcursor, hposition]
          rfl
        · have hexec : Separates env m₀ script n := ⟨o, m₁, ⟨ho, hbefore, hsep.1⟩, hsep.2⟩
          exact .rest (Nat.lt_succ_self n) hexec (fun j hj hjn => absurd hjn (by omega)) (Script.ofOps_take_append _ _)
      · refine ⟨start, ?_, hcode.succ ?_⟩
        · rw [step_advances_cursor hsep hstep, hcursor, hposition]
          rfl
        · rintro ⟨o', m', hexec, hop⟩
          cases ho.symm.trans hexec.operation
          cases hbefore.symm.trans hexec.reached
          exact hsep ⟨hexec.executing, hop⟩

theorem code_of_reached {n : Nat}
    (h : ((Script.listing script).ops.take n).foldlM (step env) (m₀.begin script) = .ok m) :
    CodeAfter env m₀ script n m.code := by
  obtain ⟨start, hcursor, hcode⟩ := cursor_of_reached h
  unfold code
  rw [hcursor]
  exact hcode

end Machine

/-! ### Deleted signatures -/

theorem cleanCode_eq_ok {sig code code' : Bytes} : Limits.cleanCode sig code = .ok code' ↔
    sig.length < 2 ^ 32 ∧ code' = Script.without (Push.operation sig) code := by
  by_cases hlen : sig.length < 2 ^ 32
  · rw [cleanCode_eq hlen, Except.ok.injEq]
    exact ⟨fun h => ⟨hlen, h.symm⟩, fun h => h.2.symm⟩
  · refine ⟨fun h => ?_, fun h => absurd h.1 hlen⟩
    unfold Limits.cleanCode Push.item at h
    rw [if_neg hlen] at h
    cases h

theorem foldlM_cleanCode_withoutAll {sigs : List Bytes} {os : List Operation} {script code : Bytes} :
    sigs.foldlM (fun code sig => Limits.cleanCode sig code) (Script.withoutAll os script) = .ok code ↔
      (∀ sig ∈ sigs, sig.length < 2 ^ 32) ∧ code = Script.withoutAll (sigs.map Push.operation ++ os) script := by
  induction sigs generalizing os with
  | nil => exact ⟨fun h => ⟨nofun, (Except.ok.inj h).symm⟩, fun h => congrArg Except.ok h.2.symm⟩
  | cons sig sigs ih =>
    have hsame : Script.withoutAll (sigs.map Push.operation ++ Push.operation sig :: os) script =
        Script.withoutAll ((sig :: sigs).map Push.operation ++ os) script := by
      refine Script.withoutAll_congr (fun o => ?_) script
      simp only [List.mem_append, List.mem_cons, List.map_cons]
      exact or_left_comm.trans or_assoc.symm
    simp only [List.foldlM_cons, bind_eq_ok, cleanCode_eq_ok, List.forall_mem_cons]
    constructor
    · rintro ⟨_, ⟨hlen, rfl⟩, hrest⟩
      rw [Script.without_withoutAll, ih, hsame] at hrest
      exact ⟨⟨hlen, hrest.1⟩, hrest.2⟩
    · rintro ⟨⟨hlen, hlens⟩, hcode⟩
      refine ⟨_, ⟨hlen, rfl⟩, ?_⟩
      rw [Script.without_withoutAll, ih, hsame]
      exact ⟨hlens, hcode⟩

/-- Deleting signatures one after another is deleting them all. -/
theorem foldlM_cleanCode_eq_ok {sigs : List Bytes} {script code : Bytes} :
    sigs.foldlM (fun code sig => Limits.cleanCode sig code) script = .ok code ↔
      (∀ sig ∈ sigs, sig.length < 2 ^ 32) ∧ code = Script.withoutAll (sigs.map Push.operation) script := by
  rw [← List.append_nil (sigs.map Push.operation), ← foldlM_cleanCode_withoutAll, Script.withoutAll_nil]

end SpendScript
