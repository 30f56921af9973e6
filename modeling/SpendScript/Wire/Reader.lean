import SpendScript.Fault

/-! # Reading from a stream

A reader takes bytes from the front of a stream. It gives a value or a fault; either way it leaves the bytes
that it has not taken. -/

namespace SpendScript.Wire

/-- Reads a value from the front of a byte stream. A reader that fails keeps what it has taken. -/
abbrev Reader := EStateM Fault Bytes

/-- The most bytes that can be asked of a stream at once. -/
def maxRead : Nat := 2 ^ 63 - 1

/-- The next `size` bytes, or all that are left if there are fewer. -/
def take (size : Nat) : Reader Bytes := fun stream =>
  if maxRead < size then .error .readTooLong stream
  else .ok (stream.take size) (stream.drop size)

/-- The next `size` bytes. -/
def takeExact (size : Nat) : Reader Bytes := do
  let bytes ← take size
  if bytes.length = size then return bytes else throw (.streamEnded bytes.length size)

/-- `count` values one after another. -/
def many {α : Type} (one : Reader α) : (count : Nat) → Reader (List α)
  | 0 => return []
  | n + 1 => do
    let value ← one
    let rest ← many one n
    return value :: rest

/-- The value read from the front of some bytes; what stands after it is ignored. -/
def Reader.value {α : Type} (reader : Reader α) (bytes : Bytes) : Except Fault α :=
  match reader bytes with
  | .ok a _ => .ok a
  | .error f _ => .error f

theorem take_append {bytes rest : Bytes} (h : bytes.length ≤ maxRead) :
    take bytes.length (bytes ++ rest) = .ok bytes rest := by
  simp [take, Nat.not_lt.mpr h]

theorem takeExact_append {bytes rest : Bytes} (h : bytes.length ≤ maxRead) :
    takeExact bytes.length (bytes ++ rest) = .ok bytes rest := by
  simp [takeExact, bind, EStateM.bind, take_append h, pure, EStateM.pure]

end SpendScript.Wire
