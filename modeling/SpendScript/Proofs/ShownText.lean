import SpendScript.Script.Asm

/-! # Words and digits

Texts that the library shows are made of words with a space between each two, and are cut into the same words again
(`words_join`). A word of decimal digits stands for one number, whatever zeros it starts with (`Denotes`), and is read as this
number unless it is too long; a word of hexadecimal digits is read as the bytes that it shows. -/

namespace SpendScript

namespace Text

/-! ### Words -/

/-- A code point that is seen, from `!` to `~`. -/
def IsVisible (c : CodePoint) : Prop := 0x21 ≤ c.val ∧ c.val ≤ 0x7e

theorem IsVisible.isBlank_eq {c : CodePoint} (h : IsVisible c) : isBlank c = false := by
  obtain ⟨hlow, hhigh⟩ := h
  refine Bool.eq_false_iff.mpr fun hblank => ?_
  obtain ⟨r, hr, hle, hge⟩ := inRanges_iff.mp hblank
  simp only [blankRanges, List.mem_cons, List.not_mem_nil, or_false] at hr
  rcases hr with rfl | rfl | rfl | rfl | rfl | rfl | rfl | rfl | rfl | rfl <;> simp only at hle hge <;> omega

/-- A text that is one word. -/
structure IsWord (w : Text) : Prop where
  ne_nil : w ≠ []
  visible : ∀ c ∈ w, IsVisible c

theorem isWord_iff {w : Text} : (!w.isEmpty && w.all fun c => 0x21 ≤ c.val && c.val ≤ 0x7e) = true ↔ IsWord w := by
  simp only [Bool.and_eq_true, Bool.not_eq_true', List.isEmpty_eq_false_iff, List.all_eq_true, decide_eq_true_eq]
  exact ⟨fun h => ⟨h.1, h.2⟩, fun h => ⟨h.ne_nil, h.visible⟩⟩

instance (w : Text) : Decidable (IsWord w) := decidable_of_iff _ isWord_iff

theorem IsWord.append {v w : Text} (hv : ∀ c ∈ v, IsVisible c) (hw : IsWord w) : IsWord (v ++ w) := by
  refine ⟨by simp [hw.ne_nil], fun c hc => ?_⟩
  rcases List.mem_append.mp hc with hc | hc
  · exact hv c hc
  · exact hw.visible c hc

theorem splitWord_append {w : Text} (h : ∀ c ∈ w, IsVisible c) (rest : Text) :
    splitWord (w ++ rest) = (w ++ (splitWord rest).1, (splitWord rest).2) := by
  induction w with
  | nil => rfl
  | cons c w ih =>
    have hc := (h c List.mem_cons_self).isBlank_eq
    rw [List.cons_append, splitWord, ih fun d hd => h d (List.mem_cons_of_mem c hd)]
    simp [hc]

theorem words_of_isWord {w : Text} (h : IsWord w) : words w = [w] := by
  have hsplit := splitWord_append h.visible []
  rw [List.append_nil] at hsplit
  simp [words, hsplit, splitWord, consWord, h.ne_nil]

theorem words_append_space {w : Text} (h : IsWord w) (rest : Text) :
    words (w ++ (ofString " " ++ rest)) = w :: words rest := by
  have hspace : splitWord (ofString " " ++ rest) = ([], words rest) := by
    change splitWord (CodePoint.ofChar ' ' :: rest) = _
    rw [splitWord]
    exact if_pos (by decide)
  rw [words, splitWord_append h.visible, hspace]
  simp [consWord, h.ne_nil]

/-- Words that are joined are found again. -/
theorem words_join {ws : List Text} (h : ∀ w ∈ ws, IsWord w) : words (join " " ws) = ws := by
  unfold join
  induction ws with
  | nil => rfl
  | cons w ws ih =>
    have hw := h w List.mem_cons_self
    have hws := fun v hv => h v (List.mem_cons_of_mem w hv)
    cases ws with
    | nil => rw [List.intercalate_singleton, words_of_isWord hw]
    | cons v ws => rw [List.intercalate_cons_cons, List.append_assoc, words_append_space hw, ih hws]

/-! ### Decimal digits -/

/-- The code point of a decimal digit. -/
def digit (d : Nat) : CodePoint := CodePoint.ofChar (Nat.digitChar d)

/-- The number that some decimal digits stand for. Zeros may stand in front of others. -/
inductive Denotes : Text → Nat → Prop
  | nil : Denotes [] 0
  | snoc {t : Text} {n d : Nat} (h : Denotes t n) (hd : d < 10) : Denotes (t ++ [digit d]) (10 * n + d)

theorem decimalValue?_digit {d : Nat} (h : d < 10) : decimalValue? (digit d) = some d := by
  revert d
  decide

theorem isVisible_digit {d : Nat} (h : d < 10) : IsVisible (digit d) := by
  have hall : ∀ d < 10, 0x21 ≤ (digit d).val ∧ (digit d).val ≤ 0x7e := by decide
  exact hall d h

theorem exists_denotes {t : Text} (h : ∀ c ∈ t, ∃ d < 10, c = digit d) : ∃ n, Denotes t n := by
  -- digits are added at the end, so the induction goes along the reversed text
  have hreverse : ∀ s : Text, (∀ c ∈ s, ∃ d < 10, c = digit d) → ∃ n, Denotes s.reverse n := by
    intro s hs
    induction s with
    | nil => exact ⟨0, .nil⟩
    | cons c s ih =>
      obtain ⟨n, hn⟩ := ih fun d hd => hs d (List.mem_cons_of_mem c hd)
      obtain ⟨d, hd, rfl⟩ := hs c List.mem_cons_self
      rw [List.reverse_cons]
      exact ⟨_, hn.snoc hd⟩
  simpa using hreverse t.reverse (by simpa using h)

theorem denotes_natText (n : Nat) : Denotes (natText n) n := by
  unfold natText
  induction n using Nat.strongRecOn with
  | ind n ih =>
    rcases Nat.lt_or_ge n 10 with hn | hn
    · have hone : Denotes [digit n] n := by simpa using Denotes.nil.snoc hn
      rw [Nat.toDigits_of_lt_base hn]
      exact hone
    · rw [Nat.toDigits_of_base_le (by decide) hn, List.map_append]
      have hrest := (ih (n / 10) (by omega)).snoc (Nat.mod_lt n (show 0 < 10 by decide))
      rwa [Nat.div_add_mod] at hrest

theorem natText_ne_nil (n : Nat) : natText n ≠ [] := by
  unfold natText
  simp [Nat.toDigits_ne_nil]

theorem length_natText_le {n k : Nat} (hk : 0 < k) (h : n < 10 ^ k) : (natText n).length ≤ k := by
  unfold natText
  rw [List.length_map]
  exact (Nat.length_toDigits_le_iff (by decide) hk).mpr h

namespace Denotes
variable {t : Text} {n : Nat}

theorem digits (h : Denotes t n) : ∀ c ∈ t, ∃ d < 10, c = digit d := by
  induction h with
  | nil =>
    intro c hc
    cases hc
  | @snoc _ _ d _ hd ih =>
    intro c hc
    rcases List.mem_append.mp hc with hc | hc
    · exact ih c hc
    · exact ⟨d, hd, List.mem_singleton.mp hc⟩

theorem visible (h : Denotes t n) : ∀ c ∈ t, IsVisible c := by
  intro c hc
  obtain ⟨d, hd, rfl⟩ := h.digits c hc
  exact isVisible_digit hd

theorem isDigits_eq (h : Denotes t n) (hne : t ≠ []) : isDigits t = true := by
  have hall : ∀ c ∈ t, isDigit c = true := by
    intro c hc
    obtain ⟨d, hd, rfl⟩ := h.digits c hc
    simp [isDigit, decimalValue?_digit hd]
  simpa [isDigits, hne] using hall

theorem decimalValues (h : Denotes t n) :
    ∃ values, t.mapM decimalValue? = some values ∧ values.foldl (fun n d => 10 * n + d) 0 = n := by
  induction h with
  | nil => exact ⟨[], rfl, rfl⟩
  | @snoc _ _ d _ hd ih =>
    obtain ⟨values, hvalues, hfold⟩ := ih
    refine ⟨values ++ [d], ?_, ?_⟩
    · simp [List.mapM_append, hvalues, decimalValue?_digit hd]
    · simp [List.foldl_append, hfold]

theorem readNat?_eq (h : Denotes t n) (hne : t ≠ []) (hlen : t.length ≤ maxDigits) : readNat? t = some n := by
  obtain ⟨values, hvalues, hfold⟩ := h.decimalValues
  unfold readNat?
  rw [if_neg (by simp [hne, hlen]), hvalues, Option.map_some, hfold]

end Denotes

theorem readNat?_eq_none {t : Text} (h : maxDigits < t.length) : readNat? t = none := if_pos (.inr h)

end Text

/-! ### Hexadecimal digits -/

namespace Bytes

theorem exists_of_mem_hex {bs : Bytes} {c : CodePoint} (h : c ∈ hex bs) : ∃ d < 16, c = Text.hexDigit d := by
  obtain ⟨b, -, hc⟩ := List.mem_flatMap.mp h
  have hb := b.toNat_lt
  rcases List.mem_cons.mp hc with rfl | hc
  · exact ⟨_, by omega, rfl⟩
  · exact ⟨_, by omega, List.mem_singleton.mp hc⟩

theorem length_hex (bs : Bytes) : (hex bs).length = 2 * bs.length := by
  induction bs with
  | nil => rfl
  | cons b bs ih =>
    rw [hex, List.flatMap_cons, List.length_append, List.length_cons, ← hex, ih, Nat.mul_succ, Nat.add_comm]
    rfl

end Bytes

namespace Text

theorem isVisible_hexDigit {d : Nat} (h : d < 16) : IsVisible (hexDigit d) := by
  have hall : ∀ d < 16, 0x21 ≤ (hexDigit d).val ∧ (hexDigit d).val ≤ 0x7e := by decide
  exact hall d h

theorem isDigit_hexDigit {d : Nat} (h : d < 16) : isDigit (hexDigit d) = true ↔ d < 10 := by
  revert d
  decide

theorem digit_eq_hexDigit {d : Nat} (h : d < 10) : hexDigit d = digit d := by
  revert d
  decide

theorem isWord_hex {bs : Bytes} (h : bs ≠ []) : IsWord (Bytes.hex bs) := by
  refine ⟨fun hnil => ?_, fun c hc => ?_⟩
  · have hlength := Bytes.length_hex bs
    rw [hnil, List.length_nil] at hlength
    exact h (List.length_eq_zero_iff.mp (by omega))
  · obtain ⟨d, hd, rfl⟩ := Bytes.exists_of_mem_hex hc
    exact isVisible_hexDigit hd

/-- Hexadecimal digits that are all digits stand for a number in decimal too. -/
theorem isDigits_hex_iff {bs : Bytes} (h : bs ≠ []) : isDigits (Bytes.hex bs) = true ↔ ∃ n, Denotes (Bytes.hex bs) n := by
  constructor
  · intro hdigits
    simp only [isDigits, Bool.and_eq_true, List.all_eq_true] at hdigits
    refine exists_denotes fun c hc => ?_
    obtain ⟨d, hd, rfl⟩ := Bytes.exists_of_mem_hex hc
    have hlt := (isDigit_hexDigit hd).mp (hdigits.2 _ hc)
    exact ⟨d, hlt, digit_eq_hexDigit hlt⟩
  · rintro ⟨n, hn⟩
    exact hn.isDigits_eq (isWord_hex h).ne_nil

end Text

end SpendScript
