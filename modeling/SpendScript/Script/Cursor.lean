import SpendScript.Script.Operation

/-! # Cursors

A cursor is a place in a script between two operations, together with the place just after the last executed
`OP_CODESEPARATOR`, from which the script that signatures commit to starts. -/

namespace SpendScript

/-- A place in a script. -/
structure Cursor where
  script : Bytes
  /-- The offset of the next operation. -/
  position : Nat
  /-- The offset just after the last executed `OP_CODESEPARATOR`. -/
  separator : Nat
  deriving DecidableEq, Repr

namespace Cursor

def start (script : Bytes) : Cursor := ⟨script, 0, 0⟩

/-- The script from just after the last executed `OP_CODESEPARATOR`. -/
def code (c : Cursor) : Bytes := c.script.drop c.separator

def separate (c : Cursor) : Cursor := { c with separator := c.position }

/-- Moves over an operation of a given size. -/
def advance (c : Cursor) (size : Nat) : Cursor := { c with position := c.position + size }

/-- The next operation and the cursor after it. Nothing at the end of the script. -/
def next (c : Cursor) : Except Fault (Option (Operation × Cursor)) :=
  match c.script.drop c.position with
  | [] => .ok none
  | b :: bs =>
    match Operation.read b bs with
    | .ok op => .ok (some (op, c.advance op.size))
    | .error cause => .error (.truncated cause)

end Cursor

end SpendScript
