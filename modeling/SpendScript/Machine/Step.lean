import SpendScript.Machine.Action
import SpendScript.Machine.CheckSig

/-! # Operations of a machine

How a machine performs an action, and how it takes one operation of a script. -/

namespace SpendScript.Machine

/-- Moves the lowest `count` of the top `depth` items to the top. -/
def moveToTop (env : Env) (depth count : Nat) (m : Machine) : Except Halt Machine := do
  m.requireDepth depth
  let below ← m.pop depth
  let upper := m.stack.take (depth - count)
  let moved := (m.stack.drop (depth - count)).take count
  { below with stack := upper ++ below.stack }.pushAll env moved

/-- Copies or moves an item to the top. The item that gives the depth is removed first. -/
def pick (env : Env) (remove : Bool) (m : Machine) : Except Halt Machine := do
  m.requireDepth 2
  let n ← m.attempt (env.limits.number (← m.peek 0))
  let m ← m.pop 1
  if 0 ≤ n ∧ n < m.stack.length then
    let item ← m.peek n.toNat
    let rest := if remove then m.stack.eraseIdx n.toNat else m.stack
    Machine.push { m with stack := rest } env item
  else m.fail (.pickRange (if remove then Opcode.opRoll else Opcode.opPick) n m.stack.length)

/-- Compares the top two items. -/
def equal (env : Env) (m : Machine) : Except Halt Machine := do
  m.requireDepth 2
  let same := (← m.peek 0) == (← m.peek 1)
  (← m.pop 2).push env (Number.ofBool same)

/-- Replaces operands by the result of an operation on numbers. -/
def numeric (env : Env) (f : Numeric) (m : Machine) : Except Halt Machine := do
  m.requireDepth f.arity
  let args ← m.attempt ((m.stack.take f.arity).reverse.mapM env.limits.number)
  let result ← m.attempt (f.apply args >>= Number.item)
  m.replace f.arity result

/-- Opens a condition. Where operations are executed the top item is its test. -/
def openIf (negated : Bool) (m : Machine) : Except Halt Machine :=
  if m.execute then do
    m.requireDepth 1
    let taken := Number.isTrue (← m.peek 0) != negated
    let m ← m.pop 1
    return { m with conditions := ⟨negated, if taken then .executing else .skipping⟩ :: m.conditions }
  else .ok { m with conditions := ⟨negated, .inactive⟩ :: m.conditions }

/-- Goes over to the other branch of the innermost condition. -/
def otherwise (m : Machine) : Except Halt Machine :=
  match m.conditions with
  | [] => m.fail .unexpectedElse
  | c :: cs => .ok { m with conditions := c.onElse :: cs }

def closeIf (m : Machine) : Except Halt Machine :=
  match m.conditions with
  | [] => m.fail .unexpectedEndIf
  | _ :: cs => .ok { m with conditions := cs }

/-- Performs the action of an opcode. -/
def perform (env : Env) (op : Opcode) (m : Machine) : Action → Except Halt Machine
  | .nop => .ok m
  | .openIf negated => openIf negated m
  | .otherwise => otherwise m
  | .closeIf => closeIf m
  | .verify => do
    m.requireDepth 1
    popVerify .verify m
  | .abort => m.fail .opReturn
  | .toAlt => do
    m.requireDepth 1
    let item ← m.peek 0
    (← m.pop 1).pushAllAlt env [item]
  | .fromAlt => do
    m.requireAlt
    let (item, m) ← m.popAlt
    m.push env item
  | .drop n => do
    m.requireDepth n
    m.pop n
  | .dup n => do
    m.requireDepth n
    m.pushAll env (m.stack.take n)
  | .dupBelow n => do
    m.requireDepth (2 * n : Nat)
    m.pushAll env ((m.stack.drop n).take n)
  | .rot n => moveToTop env (3 * n) n m
  | .swap n => moveToTop env (2 * n) n m
  | .ifDup => do
    m.requireDepth 1
    let item ← m.peek 0
    if Number.isTrue item then m.push env item else return m
  | .depth => do
    let item ← m.attempt (Number.item m.stack.length)
    m.push env item
  | .nip => do
    m.requireDepth 2
    m.replace 2 (← m.peek 0)
  | .tuck => do
    m.requireDepth 2
    let item ← m.peek 0
    m.requireRoom env 1
    return { m with stack := m.stack.insertIdx 2 item }
  | .pick remove => pick env remove m
  | .size => do
    m.requireDepth 1
    let item ← m.attempt (Number.item (← m.peek 0).length)
    m.push env item
  | .equal => equal env m
  | .equalVerify => equal env m >>= popVerify .equal
  | .numeric f => numeric env f m
  | .numEqualVerify => numeric env .equal m >>= popVerify .numEqual
  | .hash f => do
    m.requireDepth 1
    m.replace 1 (f.apply env.hashes (← m.peek 0))
  | .codeSeparator => .ok { m with cursor := m.cursor.map Cursor.separate }
  | .checkSig => checkSig env m
  | .checkSigVerify => checkSig env m >>= popVerify .checkSig
  | .checkMultiSig => checkMultiSig env m
  | .checkMultiSigVerify => checkMultiSig env m >>= popVerify .checkMultiSig
  | .upgradeableNop => do
    m.attempt (env.limits.checkNop op)
    return m
  | .invalid => m.fail (.invalidOpcode op)

/-- Moves over an operation. -/
def advance (m : Machine) (op : Operation) : Machine := { m with cursor := m.cursor.map (·.advance op.size) }

/-- Whether all open conditions are executing. -/
def isExecuting (m : Machine) : Bool := m.conditions.all (·.branch == .executing)

/-- Checks the size of the item that an operation pushes. -/
def checkItem (env : Env) (op : Operation) (m : Machine) : Except Halt Unit :=
  match op.item? with
  | some item => m.attempt (env.limits.checkItemSize item.length)
  | none => .ok ()

/-- Counts an operation if its opcode is one that counts. -/
def count (env : Env) (op : Operation) (m : Machine) : Except Halt Machine :=
  if op.opcode.isCounted then m.bump env 1 else .ok m

/-- Executes an operation: an item is pushed, anything else acts. -/
def execute1 (env : Env) (op : Operation) (m : Machine) : Except Halt Machine :=
  match op.item? with
  | some item => do
    m.attempt (env.limits.checkPush op.opcode.toNat item)
    m.push env item
  | none => perform env op.opcode m (.ofOpcode op.opcode)

/-- Passes over an operation that is not executed: only conditions act. -/
def skip1 (env : Env) (op : Operation) (m : Machine) : Except Halt Machine :=
  if op.opcode.isConditional then perform env op.opcode m (.ofOpcode op.opcode) else .ok m

/-- Takes one operation of a script. -/
def step (env : Env) (m : Machine) (op : Operation) : Except Halt Machine := do
  let m := m.advance op
  checkItem env op m
  let m ← count env op { m with execute := m.isExecuting }
  if op.opcode.isDisabled then m.fail (.disabledOpcode op.opcode)
  else if m.execute then execute1 env op m
  else skip1 env op m

end SpendScript.Machine
