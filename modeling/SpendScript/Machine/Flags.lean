import SpendScript.Power

/-! # Flags

The rules of evaluation that can be switched on. A set of flags is given by the bits of a number; bits beyond
the known flags are kept. -/

namespace SpendScript

/-- The rules that can be switched on. -/
inductive Flag
  /-- Pushes and numbers must be as short as possible. -/
  | requireMinimalPush
  /-- A signature for `OP_CHECKSIG` that is not canonical fails the script. -/
  | requireStrictDer
  /-- A signature for `OP_CHECKMULTISIG` that is not canonical fails the script. -/
  | requireStrictDerMultisig
  /-- A signature with a high `s` fails the script. -/
  | requireLowS
  /-- Public keys must be compressed or uncompressed, and signature hash types defined. -/
  | requireStrictEncoding
  /-- The extra item that `OP_CHECKMULTISIG` takes must be empty. -/
  | requireNullDummy
  /-- `OP_NOP1` to `OP_NOP10` fail. -/
  | rejectUpgradeableNops
  /-- The script whose hash an output holds is evaluated too. -/
  | enableP2sh
  /-- The first script must only push. -/
  | requireSigPushOnly
  /-- One item must be left at the end. -/
  | requireCleanStack
  deriving DecidableEq, Repr

namespace Flag

def all : List Flag :=
  [requireMinimalPush, requireStrictDer, requireStrictDerMultisig, requireLowS, requireStrictEncoding,
   requireNullDummy, rejectUpgradeableNops, enableP2sh, requireSigPushOnly, requireCleanStack]

def name : Flag → String
  | requireMinimalPush => "REQUIRE_MINIMAL_PUSH"
  | requireStrictDer => "REQUIRE_STRICT_DER"
  | requireStrictDerMultisig => "REQUIRE_STRICT_DER_MULTISIG"
  | requireLowS => "REQUIRE_LOW_S"
  | requireStrictEncoding => "REQUIRE_STRICT_ENCODING"
  | requireNullDummy => "REQUIRE_NULLDUMMY"
  | rejectUpgradeableNops => "REJECT_UPGRADEABLE_NOPS"
  | enableP2sh => "ENABLE_P2SH"
  | requireSigPushOnly => "REQUIRE_SIGPUSH_ONLY"
  | requireCleanStack => "REQUIRE_CLEANSTACK"

/-- The position of a flag's bit. -/
def bit : Flag → Nat
  | requireMinimalPush => 0
  | requireStrictDer => 1
  | requireStrictDerMultisig => 2
  | requireLowS => 3
  | requireStrictEncoding => 4
  | requireNullDummy => 5
  | rejectUpgradeableNops => 6
  | enableP2sh => 7
  | requireSigPushOnly => 8
  | requireCleanStack => 9

end Flag

/-- A set of flags. -/
structure Flags where
  bits : Nat
  deriving DecidableEq, Repr

namespace Flags

def none : Flags := ⟨0⟩

def has (fs : Flags) (f : Flag) : Bool := fs.bits.testBit f.bit

/-- Whether two sets have a bit in common. -/
def meets (fs gs : Flags) : Bool := fs.bits &&& gs.bits != 0

def ofList (flags : List Flag) : Flags := ⟨flags.foldl (fun n f => n ||| 2 ^ f.bit) 0⟩

def single (f : Flag) : Flags := ⟨2 ^ f.bit⟩

/-- How many bits the complement of a negative number takes: those of the known flags if the number lies within
    them, otherwise all that its magnitude has. -/
def complementWidth (n : Int) : Nat :=
  if -2 ^ Flag.all.length ≤ n then Flag.all.length else n.natAbs.log2 + 1

/-- The flags of a number; a negative one stands for its two's complement. -/
def ofInt (n : Int) : Flags :=
  if 0 ≤ n then ⟨n.toNat⟩ else ⟨(n + 2 ^ complementWidth n).toNat⟩

/-- The flags that every evaluation is subject to. -/
def mandatory : Flags := single .enableP2sh

/-- The flags that standard transactions are subject to. -/
def standard : Flags :=
  ofList [.enableP2sh, .requireStrictEncoding, .requireLowS, .requireNullDummy, .requireMinimalPush,
    .rejectUpgradeableNops, .requireSigPushOnly, .requireCleanStack]

/-- A set meets the set of one flag exactly if it has the flag. -/
theorem meets_single (fs : Flags) (f : Flag) : fs.meets (single f) = fs.has f := by
  cases h : fs.has f with
  | false =>
    have zero : fs.bits &&& 2 ^ f.bit = 0 := by
      apply Nat.eq_of_testBit_eq
      intro j
      simp only [Nat.testBit_and, Nat.testBit_two_pow, Nat.zero_testBit, Bool.and_eq_false_imp, decide_eq_false_iff_not]
      intro hj e
      subst e
      exact absurd hj (by simpa [has] using h)
    simp [meets, single, zero]
  | true =>
    have nonzero : fs.bits &&& 2 ^ f.bit ≠ 0 := by
      intro e
      have := congrArg (fun n => n.testBit f.bit) e
      simp only [Nat.testBit_and, Nat.testBit_two_pow_self, Nat.zero_testBit, Bool.and_true] at this
      exact absurd this (by simpa [has] using h)
    simp [meets, single, nonzero]

end Flags

end SpendScript
