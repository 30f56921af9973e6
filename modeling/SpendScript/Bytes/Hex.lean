import SpendScript.Bytes
import SpendScript.Text.Blank
import SpendScript.Text.Quoted

/-! # Hexadecimal text

Bytes are shown as pairs of lower-case hexadecimal digits. Reading takes both cases, and blanks between the
pairs. Main statement: what is shown is read back. -/

namespace SpendScript.Bytes

/-- The value of a hexadecimal digit of either case. -/
def hexValue? (c : CodePoint) : Option Nat :=
  let n := c.val
  if 0x30 ≤ n ∧ n ≤ 0x39 then some (n - 0x30)
  else if 0x61 ≤ n ∧ n ≤ 0x66 then some (n - 0x57)
  else if 0x41 ≤ n ∧ n ≤ 0x46 then some (n - 0x37)
  else none

/-- The two digits of a byte. -/
def byteHex (b : UInt8) : Text := [Text.hexDigit (b.toNat / 16), Text.hexDigit (b.toNat % 16)]

/-- The bytes in lower-case hexadecimal. -/
def hex (bs : Bytes) : Text := bs.flatMap byteHex

/-- The bytes that pairs of digits stand for; ASCII blanks may stand around the pairs. -/
def readHex? : Text → Option Bytes
  | [] => some []
  | [c] => if Text.isAsciiBlank c then some [] else none
  | c :: d :: cs =>
    if Text.isAsciiBlank c then readHex? (d :: cs)
    else
      match hexValue? c, hexValue? d with
      | some hi, some lo => (readHex? cs).map (UInt8.ofNat (16 * hi + lo) :: ·)
      | _, _ => none

theorem hexValue?_hexDigit {n : Nat} (h : n < 16) : hexValue? (Text.hexDigit n) = some n := by
  revert n
  decide

theorem isAsciiBlank_hexDigit {n : Nat} (h : n < 16) : Text.isAsciiBlank (Text.hexDigit n) = false := by
  revert n
  decide

/-- Shown bytes are read back. -/
theorem readHex?_hex (bs : Bytes) : readHex? (hex bs) = some bs := by
  induction bs with
  | nil => rfl
  | cons b bs ih =>
    have hb := b.toNat_lt
    have hi : b.toNat / 16 < 16 := by omega
    have lo : b.toNat % 16 < 16 := by omega
    have step : hex (b :: bs) =
        Text.hexDigit (b.toNat / 16) :: Text.hexDigit (b.toNat % 16) :: hex bs := by
      simp [hex, byteHex]
    rw [step, readHex?]
    simp only [isAsciiBlank_hexDigit hi, hexValue?_hexDigit hi, hexValue?_hexDigit lo, ih, Bool.false_eq_true,
      if_false, Option.map_some]
    congr 2
    apply UInt8.toNat_inj.mp
    rw [UInt8.toNat_ofNat']
    omega

end SpendScript.Bytes
