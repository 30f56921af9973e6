import SpendScript.Digest
import SpendScript.Machine.Limits
import SpendScript.Script.Cursor

/-! # The state of a machine

A machine holds two stacks, the open conditions, a count of operations and its place in the running script. An
operation either leads to another state or halts with a fault; a halt keeps the state that the fault left. -/

namespace SpendScript

/-- What becomes of the operations inside an open condition. -/
inductive Branch
  /-- The branch is executed. -/
  | executing
  /-- The other branch is executed. -/
  | skipping
  /-- An enclosing branch is not executed, so neither branch is. -/
  | inactive
  deriving DecidableEq, Repr

namespace Branch

def all : List Branch := [executing, skipping, inactive]

def name : Branch → String
  | executing => "EXECUTING"
  | skipping => "SKIPPING"
  | inactive => "INACTIVE"

def ofName? (name : String) : Option Branch := all.find? (·.name == name)

/-- The branch after `OP_ELSE`. -/
def flip : Branch → Branch
  | executing => skipping
  | skipping => executing
  | inactive => inactive

end Branch

/-- An open condition: whether `OP_NOTIF` opened it, and its branch. -/
structure Condition where
  negated : Bool
  branch : Branch
  deriving DecidableEq, Repr

/-- The opcode that opened a condition. -/
def Condition.opcode (c : Condition) : Opcode := if c.negated then Opcode.opNotIf else Opcode.opIf

/-- The condition after `OP_ELSE`. -/
def Condition.onElse (c : Condition) : Condition := { c with branch := c.branch.flip }

/-- A check of a signature against a public key and the script that it commits to. -/
abbrev SigCheck := (code key : Bytes) → TxSignature → Bool

/-- A signature check that was made, and its answer. -/
structure SigCall where
  code : Bytes
  key : Bytes
  sig : TxSignature
  result : Bool
  deriving DecidableEq, Repr

/-- What an evaluation goes by: the limits, a check of signatures if there is one, and the hashes of twenty bytes. -/
structure Env where
  limits : Limits
  sigCheck : Option SigCheck
  hashes : Hashes

/-- The state of an evaluation. Stacks and conditions are lists from the top down. -/
structure Machine where
  stack : List Bytes := []
  alt : List Bytes := []
  conditions : List Condition := []
  /-- Whether all conditions that were open at the last operation begun were executing. -/
  execute : Bool := false
  opCount : Int := 0
  /-- The place in the running script; none before the first script. -/
  cursor : Option Cursor := none
  /-- The signature checks made so far, the last one first. -/
  calls : List SigCall := []
  deriving DecidableEq, Repr

/-- The end of an evaluation by a fault, with the state that it left. -/
structure Halt where
  fault : Fault
  machine : Machine
  deriving DecidableEq, Repr

namespace Machine

/-- Halts with a fault. -/
def fail {α : Type} (m : Machine) (f : Fault) : Except Halt α := .error ⟨f.reported, m⟩

/-- Halts if a check finds a fault. -/
def attempt {α : Type} (m : Machine) : Except Fault α → Except Halt α
  | .ok a => .ok a
  | .error f => .error ⟨f, m⟩

/-- How many items both stacks hold. -/
def size (m : Machine) : Nat := m.stack.length + m.alt.length

/-- The top item; empty if there is none. -/
def top (m : Machine) : Bytes := m.stack.headD []

/-- The item at a depth below the top, which must be there. -/
def peek (m : Machine) (depth : Nat) : Except Halt Bytes :=
  match m.stack[depth]? with
  | some item => .ok item
  | none => m.fail .indexRange

/-- Removes items from the top, which must be there. -/
def pop (m : Machine) (count : Nat) : Except Halt Machine :=
  if count ≤ m.stack.length then .ok { m with stack := m.stack.drop count } else m.fail .indexRange

/-- Puts an item in the place of items at the top, which must be there. -/
def replace (m : Machine) (count : Nat) (item : Bytes) : Except Halt Machine := do
  let m ← m.pop count
  return { m with stack := item :: m.stack }

/-- Removes the top item of the second stack, which must be there, and gives it. -/
def popAlt (m : Machine) : Except Halt (Bytes × Machine) :=
  match m.alt with
  | [] => m.fail .indexRange
  | item :: rest => .ok (item, { m with alt := rest })

/-- The script that signatures commit to. -/
def code (m : Machine) : Bytes := (m.cursor.map Cursor.code).getD []

def requireDepth (m : Machine) (depth : Int) : Except Halt Unit :=
  if m.stack.length < depth then m.fail (.stackDepth m.stack.length depth) else .ok ()

def requireAlt (m : Machine) : Except Halt Unit :=
  if m.alt = [] then m.fail .altStackEmpty else .ok ()

def requireTrueTop (m : Machine) : Except Halt Unit :=
  if Number.isTrue m.top then .ok () else m.fail .evalFalse

/-- Halts unless both stacks together have room for more items. -/
def requireRoom (m : Machine) (env : Env) (count : Nat) : Except Halt Unit :=
  if env.limits.stackSize < m.size + count then m.fail (.stackSize env.limits.stackSize) else .ok ()

/-- Puts items on the stack; the first of them becomes the top. -/
def pushAll (m : Machine) (env : Env) (items : List Bytes) : Except Halt Machine := do
  m.requireRoom env items.length
  return { m with stack := items ++ m.stack }

def push (m : Machine) (env : Env) (item : Bytes) : Except Halt Machine := m.pushAll env [item]

/-- Puts items on the second stack; the first of them becomes the top. -/
def pushAllAlt (m : Machine) (env : Env) (items : List Bytes) : Except Halt Machine := do
  m.requireRoom env items.length
  return { m with alt := items ++ m.alt }

/-- Counts operations. The count is raised also when it exceeds the limit. -/
def bump (m : Machine) (env : Env) (count : Int) : Except Halt Machine :=
  let m := { m with opCount := m.opCount + count }
  if env.limits.opsPerScript < m.opCount then m.fail (.opCount env.limits.opsPerScript) else .ok m

end Machine

end SpendScript
