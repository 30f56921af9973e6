import SpendScript.Fault

/-! # Sizes that values can have

Sizes are signed words of 64 bits. A size that is asked for and that no value can have is refused before the value is
formed. -/

namespace SpendScript.Capacity

/-- Sizes lie below this bound, and from its negative on. -/
def sizeEnd : Int := 2 ^ 63

/-- Addresses lie below this bound. -/
def addressEnd : Int := 2 ^ 47

/-- The most bits that a number is shifted by. It is held in digits of thirty bits and four bytes, of which the size
    of its memory leaves that many. -/
def maxShift : Int := 30 * ((sizeEnd - 25) / 4 - 1)

/-- Checks that bytes can have a given size, next to the thirty-three that go with them. -/
def checkBytes (size : Int) : Except Fault Unit :=
  if size < -sizeEnd ∨ sizeEnd ≤ size + 33 then .error .intRange else .ok ()

/-- Checks that there are numbers shifted by a number of bits. -/
def checkShift (bits : Int) : Except Fault Unit := if maxShift < bits then .error .intRange else .ok ()

/-- Checks that a list can have a given length. An item takes eight bytes, which have addresses. -/
def checkList (length : Int) : Except Fault Unit :=
  if length < -sizeEnd ∨ sizeEnd ≤ length then .error .intRange
  else if addressEnd ≤ 8 * length then .error .outOfMemory
  else .ok ()

end SpendScript.Capacity
