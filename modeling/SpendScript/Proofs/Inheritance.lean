import SpendScript.Proofs.OpenConditions

/-! # What a script inherits

No operation reads the signature checks made before it, nor whether the operation before it was executed. States that
differ in nothing else (`Alike`) therefore go on alike, and as a script begins with no conditions, an empty second
stack and a count of zero, its outcome depends on the data stack only (`runScript_abreast`, `runScript_report`). -/

namespace SpendScript

open Machine Context

/-- States that differ at most in the signature checks made before and in whether the last operation was executed. -/
inductive Alike (past past' : List SigCall) : Machine → Machine → Prop
  | intro (m : Machine) (cs : List Condition) (x x' : Bool) :
    Alike past past' (m.inside ⟨cs, x, past⟩) (m.inside ⟨cs, x', past'⟩)

/-- Two results that are related, or two halts with one fault and states that are related. -/
inductive Agree (R : Machine → Machine → Prop) : Except Halt Machine → Except Halt Machine → Prop
  | ok {m m' : Machine} (h : R m m') : Agree R (.ok m) (.ok m')
  | halt (f : Fault) {m m' : Machine} (h : R m m') : Agree R (.error ⟨f, m⟩) (.error ⟨f, m'⟩)

namespace Agree

theorem bind {R : Machine → Machine → Prop} {y y' : Except Halt Machine} {k k' : Machine → Except Halt Machine}
    (h : Agree R y y') (hk : ∀ m m', R m m' → Agree R (k m) (k' m')) : Agree R (y >>= k) (y' >>= k') := by
  cases h with
  | ok h => exact hk _ _ h
  | halt f h => exact .halt f h

theorem mono {R S : Machine → Machine → Prop} {y y' : Except Halt Machine} (h : Agree R y y')
    (hRS : ∀ m m', R m m' → S m m') : Agree S y y' := by
  cases h with
  | ok h => exact .ok (hRS _ _ h)
  | halt f h => exact .halt f (hRS _ _ h)

section
variable {cs : List Condition} {x x' : Bool} {past past' : List SigCall}

theorem lift (z : Except Halt Machine) : Agree (Alike past past') (Context.lift ⟨cs, x, past⟩ (inside ⟨cs, x, past⟩) z)
    (Context.lift ⟨cs, x', past'⟩ (inside ⟨cs, x', past'⟩) z) := by
  cases z with
  | ok m => exact .ok (.intro m cs x x')
  | error halt => exact .halt halt.fault (.intro halt.machine cs x x')

theorem lift_bind {α : Type} {f f' : α → α} {z y y' : Except Halt α} {k k' : α → Except Halt Machine}
    (hy : y = Context.lift ⟨cs, x, past⟩ f z) (hy' : y' = Context.lift ⟨cs, x', past'⟩ f' z)
    (hk : ∀ a, Agree (Alike past past') (k (f a)) (k' (f' a))) : Agree (Alike past past') (y >>= k) (y' >>= k') := by
  rw [hy, hy']
  cases z with
  | ok a => exact hk a
  | error halt => exact .halt halt.fault (.intro halt.machine cs x x')

end

end Agree

/-! ### Steps -/

section
variable {env : Env} (m : Machine) (cs : List Condition) (x : Bool) (past past' : List SigCall)

theorem openIf_alike (negated : Bool) :
    Agree (Alike past past') (openIf negated (m.inside ⟨cs, x, past⟩)) (openIf negated (m.inside ⟨cs, x, past'⟩)) := by
  cases x with
  | false => exact .ok (.intro m (⟨negated, .inactive⟩ :: cs) false false)
  | true =>
    refine .lift_bind (requireDepth_inside _ m 1) (requireDepth_inside _ m 1) fun _ => ?_
    refine .lift_bind (peek_inside _ m 0) (peek_inside _ m 0) fun item => ?_
    refine .lift_bind (pop_inside _ m 1) (pop_inside _ m 1) fun m => ?_
    exact .ok (.intro m (_ :: cs) true true)

theorem Mark.act_alike (k : Mark) :
    Agree (Alike past past') (k.act (m.inside ⟨cs, x, past⟩)) (k.act (m.inside ⟨cs, x, past'⟩)) := by
  cases k with
  | opens negated => exact openIf_alike m cs x past past' negated
  | separates =>
    cases cs with
    | nil => exact .halt _ (.intro m [] x x)
    | cons c cs => exact .ok (.intro m (c.onElse :: cs) x x)
  | closes =>
    cases cs with
    | nil => exact .halt _ (.intro m [] x x)
    | cons c cs => exact .ok (.intro m cs x x)

theorem act_alike (o : Operation) :
    Agree (Alike past past') (if x then execute1 env o (m.inside ⟨cs, x, past⟩) else skip1 env o (m.inside ⟨cs, x, past⟩))
      (if x then execute1 env o (m.inside ⟨cs, x, past'⟩) else skip1 env o (m.inside ⟨cs, x, past'⟩)) := by
  cases ho : o.mark? with
  | some k =>
    rw [Operation.eq_of_mark? ho, Mark.act_eq, Mark.act_eq]
    exact k.act_alike m cs x past past'
  | none =>
    cases x with
    | true =>
      rw [if_pos rfl, if_pos rfl, execute1_inside _ m ho, execute1_inside _ m ho]
      exact .lift _
    | false =>
      rw [if_neg Bool.false_ne_true, if_neg Bool.false_ne_true, skip1_eq _ ho, skip1_eq _ ho]
      split
      · exact .halt _ (.intro m cs false false)
      · exact .ok (.intro m cs false false)

end

section
variable {env : Env} {past past' : List SigCall} {m m' : Machine} (h : Alike past past' m m')
include h

theorem step_alike (o : Operation) : Agree (Alike past past') (m.step env o) (m'.step env o) := by
  obtain ⟨m, cs, x, x'⟩ := h
  refine .lift_bind (checkItem_inside ⟨cs, x, past⟩ (m.advance o) o)
    (checkItem_inside ⟨cs, x', past'⟩ (m.advance o) o) fun _ => ?_
  -- from here on both go by the open conditions, and no longer by what the last operation left
  refine .lift_bind (count_inside ⟨cs, allExecuting cs, past⟩ (m.advance o) o)
    (count_inside ⟨cs, allExecuting cs, past'⟩ (m.advance o) o) fun m => ?_
  cases o.opcode.isDisabled with
  | true => exact .halt _ (.intro m cs _ _)
  | false => exact act_alike m cs _ past past' o

theorem run_alike (ops : List Operation) :
    Agree (Alike past past') (ops.foldlM (step env) m) (ops.foldlM (step env) m') := by
  induction ops generalizing m m' with
  | nil => exact .ok h
  | cons o ops ih =>
    rw [List.foldlM_cons, List.foldlM_cons]
    exact (step_alike h o).bind fun m m' h => ih h

theorem finish_alike (cut : Option Cut) : Agree (Alike past past') (finish cut m) (finish cut m') := by
  obtain ⟨m, cs, x, x'⟩ := h
  cases cut with
  | some cut => exact .halt _ (.intro m cs x x')
  | none =>
    cases cs with
    | nil => exact .ok (.intro m [] x x')
    | cons c cs => exact .halt _ (.intro m (c :: cs) x x')

end

/-! ### Scripts -/

/-- States with one data stack, in which the same signature checks have been made since some earlier ones. -/
structure Abreast (past past' : List SigCall) (m m' : Machine) : Prop where
  stack : m.stack = m'.stack
  calls : ∃ made, m.calls = made ++ past ∧ m'.calls = made ++ past'

theorem Alike.abreast {past past' : List SigCall} {m m' : Machine} (h : Alike past past' m m') :
    Abreast past past' m m' := by
  obtain ⟨m, cs, x, x'⟩ := h
  exact ⟨rfl, m.calls, rfl, rfl⟩

theorem begin_alike {m m' : Machine} (h : m.stack = m'.stack) (script : Bytes) :
    Alike m.calls m'.calls (m.begin script) (m'.begin script) := by
  have hm : ∀ m : Machine, m.begin script =
    inside ⟨[], m.execute, m.calls⟩ { stack := m.stack, cursor := some (Cursor.start script) } := fun _ => rfl
  rw [hm m, hm m', h]
  exact .intro _ [] _ _

/-- A script goes on alike from states that have nothing in common but the data stack. -/
theorem runScript_abreast {env : Env} {script : Bytes} {past past' : List SigCall} {m m' : Machine}
    (h : Abreast past past' m m') : Agree (Abreast past past') (m.runScript env script) (m'.runScript env script) := by
  unfold runScript
  split
  · exact .halt _ h
  · obtain ⟨hstack, made, hcalls, hcalls'⟩ := h
    refine Agree.mono (R := Alike m.calls m'.calls) ?_ fun e e' he => ?_
    · exact (run_alike (begin_alike hstack script) _).bind fun m m' h => finish_alike h _
    · obtain ⟨hstack', later, hlater, hlater'⟩ := he.abreast
      refine ⟨hstack', later ++ made, ?_, ?_⟩
      · rw [hlater, hcalls, List.append_assoc]
      · rw [hlater', hcalls', List.append_assoc]

/-- What an outcome shows: the fault, if there is one, and the data stack. -/
def report : Except Halt Machine → Option Fault × List Bytes
  | .ok m => (none, m.stack)
  | .error halt => (some halt.fault, halt.machine.stack)

theorem report_eq_none {x : Except Halt Machine} {s : List Bytes} :
    report x = (none, s) ↔ ∃ m, x = .ok m ∧ m.stack = s := by
  cases x with
  | ok m =>
    constructor
    · intro h
      exact ⟨m, rfl, (Prod.mk.inj h).2⟩
    · rintro ⟨m', h, rfl⟩
      cases h
      rfl
  | error halt => exact ⟨fun h => (nomatch (Prod.mk.inj h).1), fun ⟨_, h, _⟩ => (nomatch h)⟩

theorem Agree.report_eq {past past' : List SigCall} {y y' : Except Halt Machine} (h : Agree (Abreast past past') y y') :
    report y = report y' := by
  rcases h with h | ⟨f, h⟩
  · exact congrArg (Prod.mk none) h.stack
  · exact congrArg (Prod.mk (some f)) h.stack

/-- The outcome of a script depends only on the data stack that it begins with. -/
theorem runScript_report {env : Env} {script : Bytes} {m m' : Machine} (h : m.stack = m'.stack) :
    report (m.runScript env script) = report (m'.runScript env script) := by
  have habreast : Abreast m.calls m'.calls m m' := ⟨h, [], rfl, rfl⟩
  exact (runScript_abreast habreast).report_eq

theorem runScript_eq_ok_of_stack {env : Env} {script : Bytes} {m e : Machine} (he : m.runScript env script = .ok e)
    (m' : Machine) (h : m.stack = m'.stack) : ∃ e', m'.runScript env script = .ok e' ∧ e'.stack = e.stack :=
  report_eq_none.mp ((runScript_report h).symm.trans (report_eq_none.mpr ⟨e, he, rfl⟩))

end SpendScript
