import SpendScript.Machine.Step

/-! # Evaluation

A spend is authorised by an unlocking script and a locking script that are evaluated one after the other on one
stack, the second followed by the script whose hash it holds if the flags say so, and leave a true item on top. -/

namespace SpendScript

namespace Machine

/-- The machine before the first operation of a script. The data stack is all that a script inherits. -/
def begin (m : Machine) (script : Bytes) : Machine :=
  { m with conditions := [], opCount := 0, alt := [], cursor := some (Cursor.start script) }

/-- What is left to check after the last operation of a script. -/
def finish (cut : Option Cut) (m : Machine) : Except Halt Machine :=
  match cut, m.conditions with
  | some cut, _ => m.fail (.truncated cut.cause)
  | none, c :: _ => m.fail (.unterminated c.opcode)
  | none, [] => .ok m

/-- Evaluates a script. -/
def runScript (env : Env) (script : Bytes) (m : Machine) : Except Halt Machine :=
  if env.limits.scriptSize < script.length then m.fail (.scriptSize script.length env.limits.scriptSize)
  else do
    let l := Script.listing script
    let m ← l.ops.foldlM (step env) (m.begin script)
    finish l.cut m

/-- Evaluates the script on top of a stack that the unlocking script has left. -/
def runRedeem (env : Env) (unlock : Bytes) (left : List Bytes) (m : Machine) : Except Halt Machine :=
  if ¬ Script.isPushOnly unlock then m.fail .p2shSigNotPushOnly
  else do
    let m := { m with stack := left }
    m.requireDepth 1
    let script ← m.peek 0
    let m ← runScript env script (← m.pop 1)
    m.requireTrueTop
    return m

/-- Goes on with the script whose hash the locking script holds, if it holds one and the flags say so. -/
def redeem (env : Env) (unlock lock : Bytes) (left : List Bytes) (m : Machine) : Except Halt Machine :=
  if env.limits.flags.has .enableP2sh ∧ Script.isP2SH lock then runRedeem env unlock left m else .ok m

def requireClean (m : Machine) (env : Env) : Except Halt Unit :=
  if env.limits.flags.has .requireCleanStack ∧ m.stack.length ≠ 1 then m.fail .cleanStack else .ok ()

/-- Evaluates an unlocking script and then a locking script. -/
def spend (env : Env) (unlock lock : Bytes) (m : Machine) : Except Halt Machine :=
  if env.limits.flags.has .requireSigPushOnly ∧ ¬ Script.isPushOnly unlock then m.fail .sigNotPushOnly
  else do
    let unlocked ← runScript env unlock m
    let locked ← runScript env lock unlocked
    locked.requireTrueTop
    let m ← redeem env unlock lock unlocked.stack locked
    m.requireClean env
    return m

end Machine

/-- The outcome of an evaluation: the script fault that ended it, if one did, and the final data stack from
    the bottom up. -/
structure Evaluation where
  fault : Option Fault
  stack : List Bytes
  calls : List SigCall
  deriving DecidableEq, Repr

namespace Evaluation

def success (e : Evaluation) : Bool := e.fault.isNone

/-- The outcome of a run. A fault that is no script fault is no outcome. -/
def ofRun : Except Halt Machine → Except Fault Evaluation
  | .ok m => .ok ⟨none, m.stack.reverse, m.calls.reverse⟩
  | .error h =>
    if h.fault.isScriptFault then .ok ⟨some h.fault, h.machine.stack.reverse, h.machine.calls.reverse⟩
    else .error h.fault

end Evaluation

/-- Evaluates two scripts from an empty machine. -/
def evaluate (env : Env) (unlock lock : Bytes) : Except Fault Evaluation :=
  Evaluation.ofRun (Machine.spend env unlock lock { })

/-- Whether the unlocking script spends the locking one: false if the final stack is empty or has a false top.
    Any other failure is a fault. -/
def verify (env : Env) (unlock lock : Bytes) : Except Fault Bool :=
  match Machine.spend env unlock lock { } with
  | .ok _ => .ok true
  | .error h => if h.fault = .evalFalse then .ok false else .error h.fault

end SpendScript
