import SpendScript.Digest.Block

/-! # SHA-1 -/

namespace SpendScript.Digest

namespace Sha1

/-- The five chaining words. -/
structure State where
  a : UInt32
  b : UInt32
  c : UInt32
  d : UInt32
  e : UInt32

def initial : State := ⟨0x67452301, 0xefcdab89, 0x98badcfe, 0x10325476, 0xc3d2e1f0⟩

/-- The eighty words that a block expands to. -/
def schedule (block : Array UInt32) : Array UInt32 :=
  (List.range 64).foldl (fun w i =>
    w.push (rotateLeft (w.getD (i + 13) 0 ^^^ w.getD (i + 8) 0 ^^^ w.getD (i + 2) 0 ^^^ w.getD i 0) 1)) block

/-- The mixing function and the constant of a round. -/
def mix (round : Nat) (b c d : UInt32) : UInt32 :=
  if round < 20 then ((b &&& c) ||| (~~~b &&& d)) + 0x5a827999
  else if round < 40 then (b ^^^ c ^^^ d) + 0x6ed9eba1
  else if round < 60 then ((b &&& c) ||| (b &&& d) ||| (c &&& d)) + 0x8f1bbcdc
  else (b ^^^ c ^^^ d) + 0xca62c1d6

def round (s : State) (step : UInt32 × Nat) : State :=
  ⟨rotateLeft s.a 5 + mix step.2 s.b s.c s.d + s.e + step.1, s.a, rotateLeft s.b 30, s.c, s.d⟩

def compress (s : State) (block : Array UInt32) : State :=
  let t := (schedule block).toList.zipIdx.foldl round s
  ⟨s.a + t.a, s.b + t.b, s.c + t.c, s.d + t.d, s.e + t.e⟩

def State.bytes (s : State) : Bytes := [s.a, s.b, s.c, s.d, s.e].flatMap ByteOrder.big.wordBytes

end Sha1

/-- The SHA-1 digest of a message. -/
def sha1 (message : Bytes) : Bytes := (run .big Sha1.compress Sha1.initial message).bytes

@[simp] theorem length_sha1 (message : Bytes) : (sha1 message).length = 20 := by
  simp [sha1, Sha1.State.bytes]

end SpendScript.Digest
