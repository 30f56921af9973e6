import SpendScript.Signature.Der

/-! # The grammar of lax signatures

A length is written in one byte, or in any number of bytes up to 127 after a byte that tells how many (`Der.Length`). A
lax signature has a tag, a length of any value, two integers, each with its tag and its length in any form, and anything
after them (`Der.Lax`). Lax reading takes exactly these apart (`Der.laxNumbers?_eq_some`), so that what it gives depends
on the values of the two integers alone (`Der.decodeLax_exact`). -/

namespace SpendScript

/-! ### Leading zeros -/

namespace Bytes

theorem toNatLE_append (bs cs : Bytes) : toNatLE (bs ++ cs) = toNatLE bs + 256 ^ bs.length * toNatLE cs := by
  induction bs with
  | nil => simp [toNatLE]
  | cons b bs ih =>
    simp only [List.cons_append, toNatLE, ih, List.length_cons, Nat.pow_succ', Nat.mul_add, Nat.mul_assoc, Nat.add_assoc]

theorem toNatBE_cons (a : UInt8) (rest : Bytes) : toNatBE (a :: rest) = a.toNat * 256 ^ rest.length + toNatBE rest := by
  simp [toNatBE, toNatLE_append, toNatLE, Nat.mul_comm, Nat.add_comm]

theorem toNatBE_zeros (k : Nat) (bs : Bytes) : toNatBE (List.replicate k 0 ++ bs) = toNatBE bs := by
  induction k with
  | zero => rfl
  | succ k ih => simp [List.replicate_succ, toNatBE_cons, ih]

end Bytes

namespace Der

/-! ### The grammar -/

/-- The ways to write a length: a byte below 0x80, or a byte that tells how many bytes hold it, and those bytes. -/
inductive Length : (field : Bytes) → (value : Nat) → Prop
  | short {b : UInt8} (h : b < 0x80) : Length [b] b.toNat
  | long {b : UInt8} {digits : Bytes} (h : b.toNat = 0x80 + digits.length) : Length (b :: digits) (Bytes.toNatBE digits)

/-- The lax signatures whose integers have given contents. -/
inductive Lax (r s : Bytes) : Bytes → Prop
  | mk {length rLength sLength rest : Bytes} {value : Nat} (sequence : Length length value)
    (first : Length rLength r.length) (second : Length sLength s.length) :
    Lax r s (0x30 :: length ++ 0x02 :: rLength ++ r ++ 0x02 :: sLength ++ s ++ rest)

/-! ### Lax reading -/

variable {bytes rest : Bytes}

theorem split?_eq_some {count : Nat} {first : Bytes} :
    split? count bytes = some (first, rest) ↔ first.length = count ∧ bytes = first ++ rest := by
  simp only [split?, Option.ite_none_right_eq_some, Option.some.injEq, Prod.mk.injEq]
  constructor
  · rintro ⟨hlen, rfl, rfl⟩
    exact ⟨hlen, (List.take_append_drop _ _).symm⟩
  · rintro ⟨rfl, rfl⟩
    rw [List.take_left, List.drop_left]
    exact ⟨rfl, rfl, rfl⟩

theorem laxTag?_eq_some {tag : UInt8} : laxTag? tag bytes = some rest ↔ bytes = tag :: rest := by
  cases bytes with
  | nil => simp [laxTag?]
  | cons b bs => simp [laxTag?]

theorem laxLength?_eq_some {value : Nat} :
    laxLength? bytes = some (value, rest) ↔ ∃ field, Length field value ∧ bytes = field ++ rest := by
  constructor
  · intro h
    cases bytes with
    | nil => cases h
    | cons b bs =>
      simp only [laxLength?] at h
      split at h
      · rename_i hshort
        cases h
        exact ⟨[b], .short hshort, rfl⟩
      · rename_i hlong
        obtain ⟨⟨digits, after⟩, hsplit, hvalue⟩ := Option.map_eq_some_iff.mp h
        cases hvalue
        obtain ⟨hlen, rfl⟩ := split?_eq_some.mp hsplit
        have hb : 0x80 ≤ b.toNat := UInt8.le_iff_toNat_le.mp (UInt8.not_lt.mp hlong)
        exact ⟨b :: digits, .long (by omega), rfl⟩
  · rintro ⟨field, hlength, rfl⟩
    cases hlength with
    | short hshort => simp [laxLength?, hshort]
    | @long b digits hlong =>
      have hb : ¬b < 0x80 := UInt8.not_lt.mpr (UInt8.le_iff_toNat_le.mpr (hlong ▸ Nat.le_add_right _ _))
      have hsplit : split? (b.toNat - 0x80) (digits ++ rest) = some (digits, rest) :=
        split?_eq_some.mpr ⟨by omega, rfl⟩
      simp [laxLength?, hb, hsplit]

theorem laxInteger?_eq_some {n : Nat} : laxInteger? bytes = some (n, rest) ↔ ∃ length content, Length length content.length ∧
    n = Bytes.toNatBE content ∧ bytes = 0x02 :: length ++ content ++ rest := by
  simp only [laxInteger?, Option.bind_eq_bind, Option.bind_eq_some_iff, laxTag?_eq_some, Prod.exists, laxLength?_eq_some,
    split?_eq_some]
  constructor
  · rintro ⟨_, rfl, _, _, ⟨length, hlength, rfl⟩, content, _, ⟨rfl, rfl⟩, h⟩
    cases h
    exact ⟨length, content, hlength, rfl, by simp⟩
  · rintro ⟨length, content, hlength, rfl, rfl⟩
    exact ⟨_, rfl, _, _, ⟨length, hlength, List.append_assoc _ _ _⟩, content, rest, ⟨rfl, rfl⟩, rfl⟩

/-- Lax reading finds two numbers exactly in the lax signatures, and they are those of its integers. -/
theorem laxNumbers?_eq_some {r s : Nat} : laxNumbers? bytes = some (r, s) ↔ ∃ rContent sContent, Lax rContent sContent bytes ∧
    r = Bytes.toNatBE rContent ∧ s = Bytes.toNatBE sContent := by
  simp only [laxNumbers?, Option.bind_eq_bind, Option.bind_eq_some_iff, laxTag?_eq_some, Prod.exists, laxLength?_eq_some,
    laxInteger?_eq_some]
  constructor
  · rintro ⟨_, rfl, _, _, ⟨length, hlength, rfl⟩, _, _, ⟨rLength, rContent, hr, rfl, rfl⟩, _, rest,
      ⟨sLength, sContent, hs, rfl, rfl⟩, h⟩
    cases h
    refine ⟨rContent, sContent, ?_, rfl, rfl⟩
    simpa using @Lax.mk rContent sContent length rLength sLength rest _ hlength hr hs
  · rintro ⟨rContent, sContent, @⟨length, rLength, sLength, rest, value, hlength, hr, hs⟩, rfl, rfl⟩
    refine ⟨_, rfl, value, _, ⟨length, hlength, ?_⟩, _, 0x02 :: sLength ++ sContent ++ rest,
      ⟨rLength, rContent, hr, rfl, rfl⟩, _, rest, ⟨sLength, sContent, hs, rfl, rfl⟩, rfl⟩
    simp

theorem laxNumbers?_eq_none : laxNumbers? bytes = none ↔ ¬∃ r s, Lax r s bytes := by
  rw [Option.eq_none_iff_forall_ne_some, Prod.forall]
  constructor
  · rintro h ⟨r, s, hlax⟩
    exact h _ _ (laxNumbers?_eq_some.mpr ⟨r, s, hlax, rfl, rfl⟩)
  · intro h r s hread
    obtain ⟨rContent, sContent, hlax, -⟩ := laxNumbers?_eq_some.mp hread
    exact h ⟨rContent, sContent, hlax⟩

/-! ### Signatures -/

/-- The numbers of a signature whose integers have given contents: both zero if one is not below the order. -/
def numbers (r s : Bytes) : Nat × Nat :=
  if Bytes.toNatBE r < curveOrder ∧ Bytes.toNatBE s < curveOrder then (Bytes.toNatBE r, Bytes.toNatBE s) else (0, 0)

theorem numbers_zeros (k l : Nat) (r s : Bytes) :
    numbers (List.replicate k 0 ++ r) (List.replicate l 0 ++ s) = numbers r s := by
  simp only [numbers, Bytes.toNatBE_zeros]

theorem decodeLax_of_lax {r s : Bytes} (h : Lax r s bytes) : decodeLax bytes = .ok (numbers r s) := by
  unfold decodeLax
  rw [laxNumbers?_eq_some.mpr ⟨r, s, h, rfl, rfl⟩]
  rfl

theorem decodeLax_of_not_lax (h : ¬∃ r s, Lax r s bytes) : decodeLax bytes = .error .laxDer := by
  unfold decodeLax
  rw [laxNumbers?_eq_none.mpr h]

theorem decodeLaxLow_of_lax {r s : Bytes} (h : Lax r s bytes) : decodeLaxLow bytes =
    .ok ((numbers r s).1, if halfOrder < (numbers r s).2 then curveOrder - (numbers r s).2 else (numbers r s).2) := by
  unfold decodeLaxLow
  rw [decodeLax_of_lax h]
  rfl

theorem decodeLaxLow_of_not_lax (h : ¬∃ r s, Lax r s bytes) : decodeLaxLow bytes = .error .laxDer := by
  unfold decodeLaxLow
  rw [decodeLax_of_not_lax h]
  rfl

/-- Lax reading accepts exactly the lax signatures, and any other bytes are an invalid signature. It gives the values of the
    two integers, or two zeros if one is not below the order, and on request the complement of a high `s`. Zeros before an
    integer, the form of a length, the length of the sequence and what follows it therefore make no difference. -/
theorem decodeLax_exact (bytes : Bytes) :
    ((∃ n, decodeLax bytes = .ok n) ↔ ∃ r s, Lax r s bytes) ∧
    (∀ r s, Lax r s bytes → decodeLax bytes = .ok (numbers r s) ∧ decodeLaxLow bytes =
      .ok ((numbers r s).1, if halfOrder < (numbers r s).2 then curveOrder - (numbers r s).2 else (numbers r s).2)) ∧
    ((¬∃ r s, Lax r s bytes) → decodeLax bytes = .error .laxDer ∧ decodeLaxLow bytes = .error .laxDer) ∧
    Fault.laxDer.faultClass = .invalidSignature ∧
    ∀ (r s bytes' : Bytes) (k l : Nat), Lax r s bytes →
      Lax (List.replicate k 0 ++ r) (List.replicate l 0 ++ s) bytes' →
      decodeLax bytes' = decodeLax bytes ∧ decodeLaxLow bytes' = decodeLaxLow bytes := by
  refine ⟨⟨?_, ?_⟩, fun r s h => ⟨decodeLax_of_lax h, decodeLaxLow_of_lax h⟩,
    fun h => ⟨decodeLax_of_not_lax h, decodeLaxLow_of_not_lax h⟩, rfl, fun r s bytes' k l h h' => ?_⟩
  · rintro ⟨n, hn⟩
    refine Classical.byContradiction fun hnot => ?_
    cases (decodeLax_of_not_lax hnot).symm.trans hn
  · rintro ⟨r, s, h⟩
    exact ⟨_, decodeLax_of_lax h⟩
  · rw [decodeLax_of_lax h, decodeLax_of_lax h', decodeLaxLow_of_lax h, decodeLaxLow_of_lax h', numbers_zeros]
    exact ⟨rfl, rfl⟩

/-- The numbers 5 and 32, first as they are written, then with a zero before 5, lengths of two and three bytes, a sequence of
    no stated length and two bytes at the end; and a sequence whose length is missing. -/
theorem decodeLax_exact_longForms :
    Lax [0x05] [0x20] [0x30, 0x06, 0x02, 0x01, 0x05, 0x02, 0x01, 0x20] ∧
    Lax [0x00, 0x05] [0x20]
      [0x30, 0x80, 0x02, 0x82, 0x00, 0x02, 0x00, 0x05, 0x02, 0x83, 0x00, 0x00, 0x01, 0x20, 0xde, 0xad] ∧
    decodeLax [0x30, 0x06, 0x02, 0x01, 0x05, 0x02, 0x01, 0x20] = .ok (5, 32) ∧
    decodeLax [0x30, 0x80, 0x02, 0x82, 0x00, 0x02, 0x00, 0x05, 0x02, 0x83, 0x00, 0x00, 0x01, 0x20, 0xde, 0xad] =
      decodeLax [0x30, 0x06, 0x02, 0x01, 0x05, 0x02, 0x01, 0x20] ∧
    decodeLax [0x30, 0x81] = .error .laxDer := by
  have hwritten : Lax [0x05] [0x20] [0x30, 0x06, 0x02, 0x01, 0x05, 0x02, 0x01, 0x20] :=
    @Lax.mk _ _ [0x06] [0x01] [0x01] [] _ (.short (by decide)) (.short (by decide)) (.short (by decide))
  have hlong : Lax [0x00, 0x05] [0x20]
      [0x30, 0x80, 0x02, 0x82, 0x00, 0x02, 0x00, 0x05, 0x02, 0x83, 0x00, 0x00, 0x01, 0x20, 0xde, 0xad] :=
    @Lax.mk _ _ [0x80] [0x82, 0x00, 0x02] [0x83, 0x00, 0x00, 0x01] [0xde, 0xad] _ (.long rfl)
      (@Length.long 0x82 [0x00, 0x02] rfl) (@Length.long 0x83 [0x00, 0x00, 0x01] rfl)
  obtain ⟨-, hread, -, -, hsame⟩ := decodeLax_exact [0x30, 0x06, 0x02, 0x01, 0x05, 0x02, 0x01, 0x20]
  obtain ⟨-, -, hfails, -⟩ := decodeLax_exact [0x30, 0x81]
  exact ⟨hwritten, hlong, (hread _ _ hwritten).1, (hsame [0x05] [0x20] _ 1 0 hwritten hlong).1,
    (hfails (laxNumbers?_eq_none.mp rfl)).1⟩

end Der

end SpendScript
