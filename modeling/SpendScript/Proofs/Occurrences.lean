import SpendScript.Proofs.Deletion

/-! # Deleting the occurrences of a pattern

A pattern of any bytes is deleted where a whole operation starts. It may end inside an operation, beyond the last whole
one, or where it occurs again, so a scan over the operations takes an occurrence only if it does not begin inside the
one taken before it. The places that are taken are apart from each other, and every occurrence lies at one of them or
begins inside what is taken there (`Selects`). What is left of the script are its bytes at all other places
(`Script.delete_occurrences`). -/

namespace SpendScript

/-! ### Bytes at places -/

namespace Bytes

/-- The bytes at the places that are kept, if the first byte stands at `place`. -/
def keep (kept : Nat → Bool) : (place : Nat) → Bytes → Bytes
  | _, [] => []
  | place, b :: bs => if kept place then b :: keep kept (place + 1) bs else keep kept (place + 1) bs

/-- A place lies in one of the stretches of some length that begin at `starts`. -/
def Covered (starts : List Nat) (length place : Nat) : Prop := ∃ start ∈ starts, start ≤ place ∧ place < start + length

@[simp] theorem not_covered_nil {length place : Nat} : ¬Covered [] length place := by
  rintro ⟨start, hs, -⟩
  cases hs

theorem covered_cons {start : Nat} {starts : List Nat} {length place : Nat} : Covered (start :: starts) length place ↔
    start ≤ place ∧ place < start + length ∨ Covered starts length place := by
  simp [Covered]

instance {starts : List Nat} {length place : Nat} : Decidable (Covered starts length place) :=
  inferInstanceAs (Decidable (∃ start ∈ starts, start ≤ place ∧ place < start + length))

/-- What is left of some bytes when the stretches of some length that begin at `starts` are removed. -/
def outside (starts : List Nat) (length : Nat) (bytes : Bytes) : Bytes :=
  keep (fun place => ¬Covered starts length place) 0 bytes

theorem keep_congr {kept kept' : Nat → Bool} {place : Nat} {bytes : Bytes}
    (h : ∀ i, place ≤ i → i < place + bytes.length → kept i = kept' i) : keep kept place bytes = keep kept' place bytes := by
  induction bytes generalizing place with
  | nil => rfl
  | cons b bs ih =>
    have hhead := h place (Nat.le_refl _) (Nat.lt_add_of_pos_right (Nat.succ_pos _))
    have htail : keep kept (place + 1) bs = keep kept' (place + 1) bs := by
      refine ih fun i hlow hhigh => h i (by omega) ?_
      rw [List.length_cons]
      omega
    simp only [keep, hhead, htail]

theorem keep_append (kept : Nat → Bool) (place : Nat) (first rest : Bytes) :
    keep kept place (first ++ rest) = keep kept place first ++ keep kept (place + first.length) rest := by
  induction first generalizing place with
  | nil => rfl
  | cons b first ih =>
    have hplace : place + 1 + first.length = place + (b :: first).length := by
      rw [List.length_cons]
      omega
    rw [List.cons_append, keep, ih, hplace, keep]
    split <;> rfl

theorem keep_from (place count : Nat) (bytes : Bytes) : keep (fun i => place + count ≤ i) place bytes = bytes.drop count := by
  induction bytes generalizing place count with
  | nil => rw [keep, List.drop_nil]
  | cons b bs ih =>
    have hshift : keep (fun i => place + count ≤ i) (place + 1) bs = bs.drop (count - 1) := by
      rw [← ih (place + 1) (count - 1)]
      refine keep_congr fun i hlow _ => ?_
      rw [decide_eq_decide]
      omega
    rw [keep, hshift]
    cases count with
    | zero => simp
    | succ count => simp

/-- Bytes of which a start is dropped before others that are kept by a rule of their own. -/
theorem keep_drop_append {kept kept' : Nat → Bool} {place count : Nat} {first : Bytes} (rest : Bytes)
    (hfirst : ∀ i, place ≤ i → i < place + first.length → kept i = decide (place + count ≤ i))
    (hrest : ∀ i, place + first.length ≤ i → kept i = kept' i) :
    keep kept place (first ++ rest) = first.drop count ++ keep kept' (place + first.length) rest := by
  rw [keep_append, keep_congr hfirst, keep_from, keep_congr fun i hi _ => hrest i hi]

end Bytes

/-! ### Occurrences -/

namespace Script
open Bytes

/-- A whole operation of the script starts at a place. -/
def StartsAt (script : Bytes) (place : Nat) : Prop :=
  ∃ before o after, (listing script).ops = before ++ o :: after ∧ place = (ofOps before).length

/-- The pattern stands at a place where one of some operations starts; the first of them starts at `offset`, and other
    bytes follow the last. -/
def Occurs (pattern : Bytes) (ops : List Operation) (tail : Bytes) (offset place : Nat) : Prop :=
  ∃ before o after, ops = before ++ o :: after ∧ place = offset + (ofOps before).length ∧
    pattern <+: ofOps (o :: after) ++ tail

section
variable {pattern tail : Bytes} {ops : List Operation} {offset pending place : Nat}

theorem not_occurs_nil : ¬Occurs pattern [] tail offset place := by
  rintro ⟨before, o, after, hops, -⟩
  simp at hops

theorem occurs_cons {o : Operation} : Occurs pattern (o :: ops) tail offset place ↔
    place = offset ∧ pattern <+: ofOps (o :: ops) ++ tail ∨ Occurs pattern ops tail (offset + o.size) place := by
  constructor
  · rintro ⟨before, o', after, hops, hplace, hhere⟩
    cases before with
    | nil =>
      cases hops
      exact Or.inl ⟨hplace, hhere⟩
    | cons first before =>
      obtain ⟨rfl, htail⟩ := List.cons.inj hops
      refine Or.inr ⟨before, o', after, htail, ?_, hhere⟩
      rw [hplace, ofOps, List.flatMap_cons, List.length_append, Operation.length_toBytes, Nat.add_assoc]
      rfl
  · rintro (⟨rfl, hhere⟩ | ⟨before, o', after, rfl, rfl, hhere⟩)
    · exact ⟨[], o, ops, rfl, rfl, hhere⟩
    · refine ⟨o :: before, o', after, rfl, ?_, hhere⟩
      rw [ofOps, ofOps, List.flatMap_cons, List.length_append, Operation.length_toBytes, Nat.add_assoc]

theorem Occurs.offset_le (h : Occurs pattern ops tail offset place) : offset ≤ place := by
  obtain ⟨before, o, after, -, rfl, -⟩ := h
  exact Nat.le_add_right _ _

/-- The places at which a scan takes the pattern out, when the first `pending` bytes are part of an occurrence before. -/
structure Selects (pattern : Bytes) (ops : List Operation) (tail : Bytes) (offset pending : Nat) (starts : List Nat) :
    Prop where
  occurs : ∀ start ∈ starts, Occurs pattern ops tail offset start
  free : ∀ start ∈ starts, offset + pending ≤ start
  apart : starts.Pairwise fun a b => a + pattern.length ≤ b
  greedy : ∀ place, Occurs pattern ops tail offset place → offset + pending ≤ place → Covered starts pattern.length place

theorem Selects.not_covered {starts : List Nat} (h : Selects pattern ops tail offset pending starts)
    (hplace : place < offset + pending) : ¬Covered starts pattern.length place := by
  rintro ⟨start, hs, hle, -⟩
  have hfree := h.free start hs
  omega

/-- An occurrence where nothing is pending is taken, and what of it goes beyond the operation is pending then. -/
theorem Selects.take {o : Operation} {starts : List Nat} (hne : pattern ≠ []) (hhere : pattern <+: ofOps (o :: ops) ++ tail)
    (h : Selects pattern ops tail (offset + o.size) (pattern.length - o.size) starts) :
    Selects pattern (o :: ops) tail offset 0 (offset :: starts) where
  occurs := List.forall_mem_cons.mpr ⟨occurs_cons.mpr (Or.inl ⟨rfl, hhere⟩),
    fun start hs => occurs_cons.mpr (Or.inr (h.occurs start hs))⟩
  free := List.forall_mem_cons.mpr ⟨Nat.le_refl _, fun start hs => by
    have := h.free start hs
    omega⟩
  apart := List.pairwise_cons.mpr ⟨fun start hs => by
    have := h.free start hs
    omega, h.apart⟩
  greedy := by
    intro place hplace _
    have hpos : 0 < pattern.length := List.length_pos_iff.mpr hne
    rcases occurs_cons.mp hplace with ⟨rfl, -⟩ | hlater
    · exact ⟨place, List.mem_cons_self, Nat.le_refl _, Nat.lt_add_of_pos_right hpos⟩
    · have hle := hlater.offset_le
      by_cases hinside : place < offset + pattern.length
      · exact ⟨offset, List.mem_cons_self, by omega, hinside⟩
      · obtain ⟨start, hs, hcovers⟩ := h.greedy place hlater (by omega)
        exact ⟨start, List.mem_cons_of_mem _ hs, hcovers⟩

theorem Selects.pass {o : Operation} {starts : List Nat} (hmiss : ¬(pending = 0 ∧ pattern <+: ofOps (o :: ops) ++ tail))
    (h : Selects pattern ops tail (offset + o.size) (pending - o.size) starts) :
    Selects pattern (o :: ops) tail offset pending starts where
  occurs := fun start hs => occurs_cons.mpr (Or.inr (h.occurs start hs))
  free := fun start hs => by
    have := h.free start hs
    omega
  apart := h.apart
  greedy := by
    intro place hplace hfree
    rcases occurs_cons.mp hplace with ⟨rfl, hhere⟩ | hlater
    · exact absurd ⟨by omega, hhere⟩ hmiss
    · have hle := hlater.offset_le
      exact h.greedy place hlater (by omega)

/-- A scan leaves the bytes that are neither pending nor in an occurrence that it takes. -/
theorem exists_selects (hne : pattern ≠ []) (ops : List Operation) (tail : Bytes) (offset pending : Nat) :
    ∃ starts, Selects pattern ops tail offset pending starts ∧
      deleteFrom pattern ops (ofOps ops ++ tail) pending =
        keep (fun i => offset + pending ≤ i ∧ ¬Covered starts pattern.length i) offset (ofOps ops ++ tail) := by
  induction ops generalizing offset pending with
  | nil =>
    refine ⟨[], ⟨nofun, nofun, List.Pairwise.nil, fun _ h => absurd h not_occurs_nil⟩, ?_⟩
    simp only [not_covered_nil, not_false_eq_true, and_true]
    exact (keep_from offset pending tail).symm
  | cons o ops ih =>
    have hsize : o.toBytes.length = o.size := o.length_toBytes
    have htake : (o.toBytes ++ (ofOps ops ++ tail)).take o.size = o.toBytes := List.take_left' hsize
    have hdrop : (o.toBytes ++ (ofOps ops ++ tail)).drop o.size = ofOps ops ++ tail := List.drop_left' hsize
    rw [ofOps_cons_append]
    unfold deleteFrom
    simp only [List.isPrefixOf_iff_prefix, htake, hdrop]
    by_cases hhit : pending = 0 ∧ pattern <+: o.toBytes ++ (ofOps ops ++ tail)
    · obtain ⟨rfl, hhere⟩ := hhit
      obtain ⟨starts, hs, hleft⟩ := ih (offset + o.size) (pattern.length - o.size)
      refine ⟨offset :: starts, hs.take hne (by rwa [ofOps_cons_append]), ?_⟩
      rw [if_pos ⟨rfl, hhere⟩, hleft, ← hsize]
      refine (keep_drop_append _ (fun i hlow hhigh => ?_) fun i hi => ?_).symm
      · have hrest : ¬Covered starts pattern.length i := hs.not_covered (by omega)
        simp only [decide_eq_decide, covered_cons, hrest, or_false]
        omega
      · have hpending : offset + 0 ≤ i ∧ ¬(offset ≤ i ∧ i < offset + pattern.length) ↔
            offset + o.toBytes.length + (pattern.length - o.toBytes.length) ≤ i := by omega
        rw [decide_eq_decide, covered_cons, not_or, ← and_assoc, hpending]
    · obtain ⟨starts, hs, hleft⟩ := ih (offset + o.size) (pending - o.size)
      refine ⟨starts, hs.pass (by rwa [ofOps_cons_append]), ?_⟩
      rw [if_neg hhit, hleft, ← hsize]
      refine (keep_drop_append _ (fun i hlow hhigh => ?_) fun i hi => ?_).symm
      · have hrest : ¬Covered starts pattern.length i := hs.not_covered (by omega)
        simp only [hrest, not_false_eq_true, and_true]
      · have hpending : offset + pending ≤ i ↔ offset + o.toBytes.length + (pending - o.toBytes.length) ≤ i := by omega
        rw [decide_eq_decide, hpending]

end

/-! ### Whole scripts -/

theorem drop_of_listing {script : Bytes} {before after : List Operation} {o : Operation}
    (h : (listing script).ops = before ++ o :: after) :
    script.drop (ofOps before).length = ofOps (o :: after) ++ (listing script).tail := by
  have hwhole := ofOps_listing script
  rw [h, ofOps_append, List.append_assoc] at hwhole
  rw [← hwhole, List.drop_left, hwhole]

theorem occurs_listing {pattern script : Bytes} {place : Nat} :
    Occurs pattern (listing script).ops (listing script).tail 0 place ↔
      StartsAt script place ∧ pattern <+: script.drop place := by
  constructor
  · rintro ⟨before, o, after, hops, rfl, hhere⟩
    rw [Nat.zero_add, drop_of_listing hops]
    exact ⟨⟨before, o, after, hops, rfl⟩, hhere⟩
  · rintro ⟨⟨before, o, after, hops, rfl⟩, hhere⟩
    rw [drop_of_listing hops] at hhere
    exact ⟨before, o, after, hops, (Nat.zero_add _).symm, hhere⟩

/-- Deleting a pattern leaves the script without the bytes of some of its occurrences at starts of whole operations. These
    do not overlap, and every other occurrence at such a start begins inside one of them. -/
theorem delete_occurrences (pattern script : Bytes) :
    (pattern = [] → delete pattern script = script) ∧
    (pattern ≠ [] → ∃ starts : List Nat, starts.Pairwise (fun a b => a < b ∧ a + pattern.length ≤ b) ∧
      (∀ start ∈ starts, StartsAt script start ∧ pattern <+: script.drop start) ∧
      delete pattern script = outside starts pattern.length script ∧
      ∀ place, StartsAt script place → pattern <+: script.drop place →
        place ∈ starts ∨ ∃ start ∈ starts, start < place ∧ place < start + pattern.length) := by
  refine ⟨fun hnil => if_pos hnil, fun hne => ?_⟩
  have hpos : 0 < pattern.length := List.length_pos_iff.mpr hne
  obtain ⟨starts, hs, hleft⟩ := exists_selects hne (listing script).ops (listing script).tail 0 0
  refine ⟨starts, hs.apart.imp fun h => ⟨by omega, h⟩, fun start hstart => occurs_listing.mp (hs.occurs start hstart), ?_, ?_⟩
  · rw [ofOps_listing] at hleft
    rw [delete, if_neg hne, hleft]
    simp [outside]
  · intro place hstarts hhere
    obtain ⟨start, hstart, hle, hlt⟩ := hs.greedy place (occurs_listing.mpr ⟨hstarts, hhere⟩) (Nat.zero_le _)
    rcases Nat.eq_or_lt_of_le hle with rfl | hbefore
    · exact Or.inl hstart
    · exact Or.inr ⟨start, hstart, hbefore, hlt⟩

/-- A pattern that overlaps itself, in a script whose second occurrence begins inside the first and whose third lies in a
    push; and one that ends inside a push, first one that is whole and then one that is cut off. -/
theorem delete_occurrences_overlapping :
    (([0x51, 0x51] : Bytes) ≠ [] ∧ ∃ starts : List Nat, (1 ∈ starts ∨ ∃ start ∈ starts, start < 1 ∧ 1 < start + 2) ∧
      delete [0x51, 0x51] [0x51, 0x51, 0x51, 0x02, 0x51, 0x51] = outside starts 2 [0x51, 0x51, 0x51, 0x02, 0x51, 0x51] ∧
      outside starts 2 [0x51, 0x51, 0x51, 0x02, 0x51, 0x51] = [0x51, 0x02, 0x51, 0x51]) ∧
    ([0x51, 0x02] : Bytes) ≠ [] ∧ ∃ starts : List Nat,
      (∀ start ∈ starts, StartsAt [0x51, 0x02, 0x51, 0x02, 0x51, 0x02, 0x07] start) ∧
      outside starts 2 [0x51, 0x02, 0x51, 0x02, 0x51, 0x02, 0x07] = [0x51, 0x02, 0x07] := by
  refine ⟨⟨by decide, ?_⟩, by decide, ?_⟩
  · obtain ⟨starts, -, -, hleft, hgreedy⟩ :=
      (delete_occurrences [0x51, 0x51] [0x51, 0x51, 0x51, 0x02, 0x51, 0x51]).2 (by decide)
    exact ⟨starts, hgreedy 1 ⟨[.code 0x51], .code 0x51, _, rfl, rfl⟩ (by decide), hleft, hleft.symm⟩
  · obtain ⟨starts, -, hstarts, hleft, -⟩ :=
      (delete_occurrences [0x51, 0x02] [0x51, 0x02, 0x51, 0x02, 0x51, 0x02, 0x07]).2 (by decide)
    exact ⟨starts, fun start hs => (hstarts start hs).1, hleft.symm⟩

end Script

end SpendScript
