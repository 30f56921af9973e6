import SpendScript.Power

/-! # Byte strings

Scripts, stack items, hashes and wire data are byte strings. This file holds their reading as unsigned
integers in both byte orders and the writing of an integer in a given number of bytes. Main statements: a
number that fits is read back from its bytes, and the bytes of a number are as many as asked for. -/

namespace SpendScript

/-- A byte string. -/
abbrev Bytes := List UInt8

namespace Bytes

/-! ### Little-endian integers -/

/-- The unsigned integer of a byte string whose first byte is the least significant. -/
def toNatLE : Bytes → Nat
  | [] => 0
  | b :: bs => b.toNat + 256 * toNatLE bs

/-- The low `width` bytes of a number, least significant first. -/
def ofNatLE : (width : Nat) → (n : Nat) → Bytes
  | 0, _ => []
  | w + 1, n => UInt8.ofNat n :: ofNatLE w (n / 256)

@[simp] theorem length_ofNatLE (w n : Nat) : (ofNatLE w n).length = w := by
  induction w generalizing n with
  | zero => rfl
  | succ w ih => simp [ofNatLE, ih]

theorem toNatLE_lt (bs : Bytes) : toNatLE bs < 256 ^ bs.length := by
  induction bs with
  | nil => simp [toNatLE]
  | cons b bs ih =>
    have hb := b.toNat_lt
    simp only [toNatLE, List.length_cons, Nat.pow_succ]
    omega

/-- A number that fits its bytes is read back. -/
theorem toNatLE_ofNatLE (w n : Nat) (h : n < 256 ^ w) : toNatLE (ofNatLE w n) = n := by
  induction w generalizing n with
  | zero => simp at h; simp [ofNatLE, toNatLE, h]
  | succ w ih =>
    have hn : n / 256 < 256 ^ w := by
      rw [Nat.div_lt_iff_lt_mul (by decide), ← Nat.pow_succ]; exact h
    simp only [ofNatLE, toNatLE, ih _ hn, UInt8.toNat_ofNat']
    omega

/-- A byte string is the writing of its value in as many bytes as it has. -/
theorem ofNatLE_toNatLE (bs : Bytes) : ofNatLE bs.length (toNatLE bs) = bs := by
  induction bs with
  | nil => rfl
  | cons b bs ih =>
    have hb := b.toNat_lt
    have hdiv : (b.toNat + 256 * toNatLE bs) / 256 = toNatLE bs := by omega
    simp only [toNatLE, List.length_cons, ofNatLE, hdiv, ih, List.cons.injEq, and_true]
    apply UInt8.toNat_inj.mp
    rw [UInt8.toNat_ofNat']
    omega

/-! ### Big-endian integers -/

/-- The unsigned integer of a byte string whose first byte is the most significant. -/
def toNatBE (bs : Bytes) : Nat := toNatLE bs.reverse

/-- The low `width` bytes of a number, most significant first. -/
def ofNatBE (width n : Nat) : Bytes := (ofNatLE width n).reverse

@[simp] theorem length_ofNatBE (w n : Nat) : (ofNatBE w n).length = w := by
  simp [ofNatBE]

theorem toNatBE_ofNatBE (w n : Nat) (h : n < 256 ^ w) : toNatBE (ofNatBE w n) = n := by
  simp [toNatBE, ofNatBE, toNatLE_ofNatLE w n h]

/-! ### The fewest bytes -/

/-- How many binary digits a number has; zero has none. -/
def bitLength (n : Nat) : Nat := if n = 0 then 0 else n.log2 + 1

/-- How many bytes a number needs; zero needs none. -/
def width (n : Nat) : Nat := (bitLength n + 7) / 8

/-! ### Order -/

/-- Lexicographic order by unsigned bytes; a proper start of a string comes before it. -/
def le : Bytes → Bytes → Bool
  | [], _ => true
  | _ :: _, [] => false
  | a :: as, b :: bs => if a = b then le as bs else a < b

end Bytes

end SpendScript
