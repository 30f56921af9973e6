import SpendScript.Script.Operation

/-! # Deleting a pattern from a script

Every occurrence of a pattern that starts where a whole operation starts is removed. Occurrences do not overlap:
the search goes on after the end of the last one removed, at the next start of an operation. What stands after
the last whole operation is kept. -/

namespace SpendScript.Script

/-- Deletes along the operations that `bytes` start with, when the first `pending` of the bytes are already
    part of an occurrence. -/
def deleteFrom (pattern : Bytes) : List Operation → (bytes : Bytes) → (pending : Nat) → Bytes
  | [], bytes, pending => bytes.drop pending
  | op :: ops, bytes, pending =>
    let pending := if pending = 0 ∧ pattern.isPrefixOf bytes then pattern.length else pending
    (bytes.take op.size).drop pending ++ deleteFrom pattern ops (bytes.drop op.size) (pending - op.size)

/-- The script without the occurrences of a pattern. -/
def delete (pattern script : Bytes) : Bytes :=
  if pattern = [] then script else deleteFrom pattern (listing script).ops script 0

/-- The script without its `OP_CODESEPARATOR`s. -/
def withoutSeparators (script : Bytes) : Bytes := delete [Opcode.opCodeSeparator] script

end SpendScript.Script
