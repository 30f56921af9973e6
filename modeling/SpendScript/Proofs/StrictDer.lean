import SpendScript.Signature.Der

/-! # Strict signatures by offsets

A strict signature is read from its bytes one after another, and also by offsets that are computed from the lengths
in it. The two readings agree on all bytes, so none of the offsets lies beyond the end. -/

namespace SpendScript.Der

theorem byteAt_cons_zero (b : UInt8) (rest : Bytes) : byteAt (b :: rest) 0 = .ok b := by
  rw [byteAt, List.getElem?_cons_zero]

theorem byteAt_cons_succ (b : UInt8) (rest : Bytes) (i : Nat) : byteAt (b :: rest) (i + 1) = byteAt rest i := by
  rw [byteAt, byteAt, List.getElem?_cons_succ]

theorem byteAt_append (front : Bytes) (b : UInt8) (rest : Bytes) :
    byteAt (front ++ b :: rest) front.length = .ok b := by
  unfold byteAt
  rw [List.getElem?_append_right (Nat.le_refl _), Nat.sub_self]
  rfl

theorem decide_lt (a b : UInt8) : decide (a < b) = !decide (b ≤ a) := by
  simp only [← UInt8.not_le, decide_not]

theorem length_pos_of_isStrictContent {content : Bytes} (h : isStrictContent content = true) : 0 < content.length := by
  cases content with
  | nil => cases h
  | cons a rest => exact Nat.succ_pos _

theorem isStrictField_eq {tag len : UInt8} {content : Bytes} (h : len.toNat = content.length) :
    isStrictField (tag :: len :: content) = .ok (tag == 0x02 && isStrictContent content) := by
  have hlen : len = 0 ↔ content = [] := by
    rw [← List.length_eq_zero_iff, ← h]
    exact UInt8.toNat_inj.symm
  unfold isStrictField
  simp only [byteAt_cons_zero, byteAt_cons_succ, bind, Except.bind, pure, Except.pure, List.drop_succ_cons,
    List.drop_zero]
  by_cases ht : tag = 0x02
  · match content with
    | [] => simp [ht, hlen, isStrictContent]
    | [a] => by_cases ha : 0x80 ≤ a <;> simp [ht, hlen, isStrictContent, byteAt_cons_zero, decide_lt, ha]
    | a :: b :: rest =>
      by_cases h0 : a = 0
      · simp [ht, hlen, isStrictContent, byteAt_cons_zero, byteAt_cons_succ, decide_lt, h0]
      · by_cases ha : 0x80 ≤ a <;> simp [ht, hlen, isStrictContent, byteAt_cons_zero, decide_lt, ha, h0]
  · simp [ht]

theorem inspectFields_eq {rTag rLen sTag sLen : UInt8} {r s : Bytes} (hr : rLen.toNat = r.length)
    (hs : sLen.toNat = s.length) : inspectFields (rTag :: rLen :: r) (sTag :: sLen :: s) =
      .ok (if rTag = 0x02 ∧ sTag = 0x02 ∧ isStrictContent r = true ∧ isStrictContent s = true then
        if Bytes.toNatBE s ≤ halfOrder then .strictLow else .strictHigh else .loose) := by
  unfold inspectFields
  rw [isStrictField_eq hr, isStrictField_eq hs]
  simp only [bind, Except.bind, pure, Except.pure]
  by_cases h1 : rTag = 0x02 <;> by_cases h2 : sTag = 0x02 <;> by_cases h3 : isStrictContent r = true <;>
    by_cases h4 : isStrictContent s = true <;> simp [h1, h2, h3, h4]

theorem inspect_short {tag len rTag rLen : UInt8} {rest : Bytes} (h : rest.length ≤ rLen.toNat + 1) :
    inspect (tag :: len :: rTag :: rLen :: rest) = .ok .loose := by
  have hsize : rest.length + 1 + 1 + 1 + 1 ≤ 5 + rLen.toNat := by omega
  unfold inspect
  simp only [byteAt_cons_zero, byteAt_cons_succ, bind, Except.bind, pure, Except.pure, List.length_cons, hsize,
    if_true, ite_self]

/-- The fields are compared only if the lengths of both integers and of the whole agree. -/
theorem inspect_fields {sig r rest : Bytes} {tag len rTag rLen sTag sLen : UInt8} (hr : rLen.toNat = r.length)
    (hsig : sig = tag :: len :: rTag :: rLen :: (r ++ sTag :: sLen :: rest)) :
    inspect sig = if (9 ≤ sig.length ∧ sig.length ≤ 73) ∧ tag = 0x30 ∧ len.toNat = sig.length - 3 ∧
        rest.length = sLen.toNat + 1 then
      inspectFields (rTag :: rLen :: r) (sTag :: sLen :: rest.dropLast) else .ok .loose := by
  have h0 : byteAt sig 0 = .ok tag := by rw [hsig]; rfl
  have h1 : byteAt sig 1 = .ok len := by rw [hsig]; rfl
  have h3 : byteAt sig 3 = .ok rLen := by rw [hsig]; rfl
  have hsize : sig.length = r.length + rest.length + 6 := by
    rw [hsig]
    simp only [List.length_cons, List.length_append]
    omega
  have hs : byteAt sig (5 + rLen.toNat) = .ok sLen := by
    have := byteAt_append (tag :: len :: rTag :: rLen :: (r ++ [sTag])) sLen rest
    simp only [List.cons_append, List.append_assoc, List.nil_append, List.length_cons, List.length_append,
      List.length_nil] at this
    rw [hsig, hr, Nat.add_comm, ← this]
  have hrField : (sig.take (4 + rLen.toNat)).drop 2 = rTag :: rLen :: r := by
    rw [hsig, hr, Nat.add_comm]
    simp
  have hroom : ¬sig.length ≤ 5 + rLen.toNat := by omega
  have hlast : 7 + rLen.toNat + sLen.toNat = sig.length ↔ rest.length = sLen.toNat + 1 := by omega
  unfold inspect
  simp only [h0, h1, h3, hs, bind, Except.bind, pure, Except.pure, hrField, hroom, if_false, ne_eq, hlast]
  by_cases c : rest.length = sLen.toNat + 1
  · have hsField : (sig.take (sig.length - 1)).drop (4 + rLen.toNat) = sTag :: sLen :: rest.dropLast := by
      obtain ⟨s, last, rfl⟩ := List.eq_nil_or_concat rest |>.resolve_left (by rintro rfl; cases c)
      have hend : sig = (tag :: len :: rTag :: rLen :: (r ++ sTag :: sLen :: s)) ++ [last] := by simp [hsig]
      rw [← List.dropLast_eq_take, hend, List.dropLast_concat, hr, Nat.add_comm]
      simp
    rw [hsField]
    by_cases c1 : 9 ≤ sig.length ∧ sig.length ≤ 73 <;> by_cases c2 : tag = 0x30 <;>
      by_cases c3 : len.toNat = sig.length - 3 <;> simp [c, c1, c2, c3]
  · simp only [c, not_false_eq_true, if_true, ite_self, and_false, if_false]

theorem strict?_whole {sig r s : Bytes} {tag len rTag rLen sTag sLen last : UInt8} (hr : rLen.toNat = r.length)
    (hs : sLen.toNat = s.length) (hsig : sig = tag :: len :: rTag :: rLen :: (r ++ sTag :: sLen :: (s ++ [last]))) :
    strict? sig = if tag = 0x30 ∧ len.toNat + 3 = sig.length ∧ sig.length ≤ 73 ∧ rTag = 0x02 ∧ sTag = 0x02
      ∧ isStrictContent r = true ∧ isStrictContent s = true then some ⟨r, s, last⟩ else none := by
  rw [hsig]
  simp only [strict?, hr, hs, List.drop_left, List.take_left]

/-- A signature whose lengths are those of its integers and that ends with one more byte. -/
theorem inspect_whole {sig r s : Bytes} {tag len rTag rLen sTag sLen last : UInt8} (hr : rLen.toNat = r.length)
    (hs : sLen.toNat = s.length) (hsig : sig = tag :: len :: rTag :: rLen :: (r ++ sTag :: sLen :: (s ++ [last]))) :
    inspect sig = .ok (analyze sig) := by
  have hrest : (s ++ [last]).length = sLen.toNat + 1 := by rw [List.length_append, hs]; rfl
  have hsize : sig.length = r.length + s.length + 7 := by
    rw [hsig]
    simp only [List.length_cons, List.length_append, List.length_nil]
    omega
  unfold analyze
  rw [inspect_fields hr hsig, List.dropLast_concat, inspectFields_eq hr hs, strict?_whole hr hs hsig]
  by_cases hf : rTag = 0x02 ∧ sTag = 0x02 ∧ isStrictContent r = true ∧ isStrictContent s = true
  · have hrPos := length_pos_of_isStrictContent hf.2.2.1
    have hsPos := length_pos_of_isStrictContent hf.2.2.2
    have hlow : 9 ≤ sig.length := by omega
    have hbody : len.toNat = sig.length - 3 ↔ len.toNat + 3 = sig.length := by omega
    by_cases hw : tag = 0x30 ∧ len.toNat + 3 = sig.length ∧ sig.length ≤ 73
    · simp only [hlow, hbody, hrest, hf, hw, and_self, if_true]
    · rw [if_neg fun h => hw ⟨h.2.1, hbody.mp h.2.2.1, h.1.2⟩, if_neg fun h => hw ⟨h.1, h.2.1, h.2.2.1⟩]
  · rw [if_neg hf, ite_self, if_neg fun h => hf h.2.2.2]

theorem inspect_eq (sig : Bytes) : inspect sig = .ok (analyze sig) := by
  match sig with
  | [] | [_] | [_, _] | [_, _, _] => rfl
  | tag :: len :: rTag :: rLen :: rest =>
    match hd : rest.drop rLen.toNat with
    | [] | [_] =>
      have hl := congrArg List.length hd
      simp only [List.length_drop, List.length_nil, List.length_cons] at hl
      rw [inspect_short (by omega)]
      simp only [analyze, strict?, hd]
    | sTag :: sLen :: rest' =>
      have hl := congrArg List.length hd
      simp only [List.length_drop, List.length_cons] at hl
      have hr : rLen.toNat = (rest.take rLen.toNat).length := by rw [List.length_take]; omega
      have hrest : rest = rest.take rLen.toNat ++ sTag :: sLen :: rest' := by rw [← hd, List.take_append_drop]
      match ht : rest'.drop sLen.toNat with
      | [] | _ :: _ :: _ =>
        have hl' := congrArg List.length ht
        simp only [List.length_drop, List.length_nil, List.length_cons] at hl'
        have hne : rest'.length ≠ sLen.toNat + 1 := by omega
        rw [inspect_fields hr (by rw [← hrest])]
        simp [analyze, strict?, hd, ht, hne]
      | [last] =>
        have hl' := congrArg List.length ht
        simp only [List.length_drop, List.length_nil, List.length_cons] at hl'
        have hs : sLen.toNat = (rest'.take sLen.toNat).length := by rw [List.length_take]; omega
        have hrest' : rest' = rest'.take sLen.toNat ++ [last] := by rw [← ht, List.take_append_drop]
        exact inspect_whole hr hs (by rw [← hrest', ← hrest])

end SpendScript.Der
