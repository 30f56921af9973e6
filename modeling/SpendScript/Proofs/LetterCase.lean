import SpendScript.Proofs.AsmRoundTrip

/-! # Hexadecimal text in capitals

Bytes that are spelt with small and capital letters are read as the same bytes (`Bytes.readHex?_lower`). Text is nevertheless
taken for the bytes of a script only if all its letters are small. With a capital among them it is no pure hexadecimal, but a
word, and the script that is read from it pushes the bytes (`Script.ofText_spelling_iff`). -/

namespace SpendScript

/-- A capital letter as a small one, and any other code point as it is. -/
def CodePoint.lower (c : CodePoint) : CodePoint := if 0x41 ≤ c.val ∧ c.val ≤ 0x5a then .ofNat (c.val + 0x20) else c

namespace CodePoint
variable {c : CodePoint}

theorem val_lower_capital (h : 0x41 ≤ c.val ∧ c.val ≤ 0x5a) : c.lower.val = c.val + 0x20 := by
  unfold lower
  rw [if_pos h]
  exact Nat.mod_eq_of_lt (by omega)

theorem lower_eq_self (h : ¬(0x41 ≤ c.val ∧ c.val ≤ 0x5a)) : c.lower = c := if_neg h

theorem isAsciiBlank_lower (c : CodePoint) : Text.isAsciiBlank c.lower = Text.isAsciiBlank c := by
  by_cases hc : 0x41 ≤ c.val ∧ c.val ≤ 0x5a
  · have hval := val_lower_capital hc
    have hspace : ∀ d : CodePoint, d == CodePoint.ofChar ' ' ↔ d.val = 0x20 := by
      intro d
      rw [beq_iff_eq, Fin.ext_iff]
      exact Iff.rfl
    rw [Bool.eq_iff_iff]
    simp only [Text.isAsciiBlank, Bool.or_eq_true, Bool.and_eq_true, decide_eq_true_eq, hspace, hval]
    omega
  · rw [lower_eq_self hc]

theorem hexValue?_lower (c : CodePoint) : Bytes.hexValue? c.lower = Bytes.hexValue? c := by
  by_cases hc : 0x41 ≤ c.val ∧ c.val ≤ 0x5a
  · have hval := val_lower_capital hc
    by_cases hhex : c.val ≤ 0x46
    · simp only [Bytes.hexValue?, hval]
      rw [if_neg (by omega), if_pos (by omega), if_neg (by omega), if_neg (by omega), if_pos (by omega)]
      exact congrArg some (by omega)
    · simp only [Bytes.hexValue?, hval]
      rw [if_neg (by omega), if_neg (by omega), if_neg (by omega), if_neg (by omega), if_neg (by omega), if_neg (by omega)]
  · rw [lower_eq_self hc]

/-- A capital letter is no digit. -/
theorem lower_of_isDigit (h : Text.isDigit c = true) : c.lower = c := by
  have hletters : ∀ k < 26, Text.isDigit (.ofNat (0x41 + k)) = false := by decide
  refine lower_eq_self fun hc => ?_
  have hletter := hletters (c.val - 0x41) (by omega)
  have hsame : ofNat (0x41 + (c.val - 0x41)) = c := by
    refine Fin.ext ?_
    change (0x41 + (c.val - 0x41)) % 0x110000 = c.val
    omega
  rw [hsame, h] at hletter
  cases hletter

end CodePoint

namespace Text

/-- A text with small letters in place of its capital ones. -/
def lower (t : Text) : Text := t.map CodePoint.lower

theorem lower_of_isDigits {t : Text} (h : isDigits t = true) : lower t = t := by
  simp only [isDigits, Bool.and_eq_true, List.all_eq_true] at h
  exact (List.map_congr_left fun c hc => CodePoint.lower_of_isDigit (h.2 c hc)).trans (List.map_id t)

/-- A word of hexadecimal digits of either case. -/
structure IsHex (t : Text) : Prop where
  ne_nil : t ≠ []
  digits : ∀ c ∈ t, ∃ n, Bytes.hexValue? c = some n

theorem hexValue?_range {c : CodePoint} {n : Nat} (h : Bytes.hexValue? c = some n) :
    (0x30 ≤ c.val ∧ c.val ≤ 0x39) ∨ (0x61 ≤ c.val ∧ c.val ≤ 0x66) ∨ (0x41 ≤ c.val ∧ c.val ≤ 0x46) := by
  simp only [Bytes.hexValue?] at h
  split at h
  · exact .inl ‹_›
  · split at h
    · exact .inr (.inl ‹_›)
    · split at h
      · exact .inr (.inr ‹_›)
      · cases h

theorem IsHex.isWord {t : Text} (h : IsHex t) : IsWord t := by
  refine ⟨h.ne_nil, fun c hc => ?_⟩
  obtain ⟨n, hn⟩ := h.digits c hc
  have hrange := hexValue?_range hn
  constructor <;> omega

theorem IsHex.isPlain {t : Text} (h : IsHex t) : Script.IsPlain t := by
  obtain ⟨c, rest, rfl⟩ := List.exists_cons_of_ne_nil h.ne_nil
  obtain ⟨n, hn⟩ := h.digits c List.mem_cons_self
  have hrange := hexValue?_range hn
  constructor
  · refine Bool.eq_false_iff.mpr fun hname => ?_
    have hval : c.val = 0x4f := congrArg Fin.val (Script.isName_cons hname)
    omega
  · refine Bool.eq_false_iff.mpr fun hsign => ?_
    have hval : c.val = 0x2d := congrArg Fin.val (Option.some.inj (beq_iff_eq.mp hsign))
    omega

end Text

open Text

namespace Bytes

/-- Capital letters are read as small ones. -/
theorem readHex?_lower : ∀ t : Text, readHex? (lower t) = readHex? t
  | [] => rfl
  | [c] => by simp only [lower, List.map_cons, List.map_nil, readHex?, CodePoint.isAsciiBlank_lower]
  | c :: d :: cs => by
    have hblank := readHex?_lower (d :: cs)
    have hpair := readHex?_lower cs
    simp only [lower, List.map_cons] at hblank hpair ⊢
    simp only [readHex?, CodePoint.isAsciiBlank_lower, CodePoint.hexValue?_lower, hblank, hpair]

theorem readHex?_spelling {t : Text} {b : Bytes} (h : lower t = hex b) : readHex? t = some b := by
  rw [← readHex?_lower, h, readHex?_hex]

theorem isHex_spelling {t : Text} {b : Bytes} (h : lower t = hex b) (hne : t ≠ hex b) : IsHex t := by
  constructor
  · rintro rfl
    exact hne h
  · intro c hc
    have hmem : c.lower ∈ hex b := h ▸ List.mem_map_of_mem hc
    obtain ⟨n, hn, heq⟩ := exists_of_mem_hex hmem
    exact ⟨n, by rw [← CodePoint.hexValue?_lower, heq, hexValue?_hexDigit hn]⟩

end Bytes

/-- The push of an item is not the item itself. -/
theorem Push.encode_ne_self (item : Bytes) : Push.encode item ≠ item := by
  unfold encode
  cases hsingle : single? item with
  | none =>
    intro heq
    have hlen := congrArg List.length heq
    simp only [List.length_append, List.length_cons] at hlen
    omega
  | some op =>
    intro heq
    have heq : [op] = item := heq
    subst heq
    simp only [single?] at hsingle
    split at hsingle
    · have hop : (0x51 : UInt8) + op - 1 = op := Option.some.inj hsingle
      grind
    · split at hsingle
      · rename_i hnegate
        rw [hnegate] at hsingle
        exact absurd hsingle (by decide)
      · cases hsingle

namespace Script
variable {b : Bytes} {t : Text}

theorem ofHex_spelling (h : lower t = Bytes.hex b) :
    ofHex t = if Bytes.hex b = t then .ok b else .error .impureHex := by
  unfold ofHex
  rw [Bytes.readHex?_spelling h]

/-- A word that holds a capital letter is no number, so its digits are data. -/
theorem wordBytes_spelling (h : lower t = Bytes.hex b) (hne : t ≠ Bytes.hex b) : wordBytes t = pushWord t := by
  have hplain := (Bytes.isHex_spelling h hne).isPlain
  have hdigits : ¬isDigits t = true := fun hdigits => hne ((lower_of_isDigits hdigits).symm.trans h)
  unfold wordBytes
  rw [hplain.no_name, hplain.unsigned_eq, if_neg Bool.false_ne_true, if_neg hdigits]

theorem pushWord_spelling (h : lower t = Bytes.hex b) :
    pushWord t = (Push.item b).mapError fun _ => .badPushWord t := by
  unfold pushWord
  rw [Bytes.readHex?_spelling h]

theorem ofText_of_capital (h : lower t = Bytes.hex b) (hne : t ≠ Bytes.hex b) :
    ofText t = (Push.item b).mapError fun _ => .badPushWord t := by
  have hwords := words_of_isWord (Bytes.isHex_spelling h hne).isWord
  unfold ofText
  rw [ofHex_spelling h, if_neg (Ne.symm hne)]
  simp only [ofAsm, hwords, List.mapM_cons, List.mapM_nil, wordBytes_spelling h hne, pushWord_spelling h]
  cases Push.item b with
  | ok bytes => exact congrArg Except.ok (List.append_nil bytes)
  | error f => rfl

/-- Text that spells bytes in hexadecimal is read as the script of these bytes exactly if all its letters are small. With a
    capital letter it is read as a push of the bytes. -/
theorem ofText_spelling_iff (h : lower t = Bytes.hex b) : (ofText t = .ok b ↔ t = Bytes.hex b) ∧
    (t ≠ Bytes.hex b → ofText t = (Push.item b).mapError fun _ => .badPushWord t) := by
  refine ⟨⟨fun hread => ?_, fun heq => ?_⟩, ofText_of_capital h⟩
  · refine Classical.byContradiction fun hne => ?_
    rw [ofText_of_capital h hne] at hread
    unfold Push.item at hread
    split at hread
    · exact Push.encode_ne_self b (Except.ok.inj hread)
    · cases hread
  · unfold ofText
    rw [ofHex_spelling h, if_pos heq.symm]

theorem ofText_spelling_iff_mixed : lower (ofString "aB0c") = Bytes.hex [0xab, 0x0c] ∧
    (ofText (ofString "aB0c") = .ok [0xab, 0x0c] ↔ ofString "aB0c" = Bytes.hex [0xab, 0x0c]) ∧
    (ofString "aB0c" ≠ Bytes.hex [0xab, 0x0c] → ofText (ofString "aB0c") =
      (Push.item [0xab, 0x0c]).mapError fun _ => .badPushWord (ofString "aB0c")) :=
  have hspelling : lower (ofString "aB0c") = Bytes.hex [0xab, 0x0c] := by decide
  ⟨hspelling, ofText_spelling_iff hspelling⟩

/-- The byte `ab` in capitals is read as a push of that byte. -/
theorem ofText_capitals : lower (ofString "AB") = Bytes.hex [0xab] ∧ ofText (ofString "AB") = .ok [0x01, 0xab] ∧
    ofText (ofString "AB") ≠ .ok [0xab] := by
  have hread : ofText (ofString "AB") = .ok [0x01, 0xab] := by rfl
  refine ⟨by decide, hread, ?_⟩
  rw [hread]
  exact fun heq => absurd (Except.ok.inj heq) (by decide)

end Script

end SpendScript
