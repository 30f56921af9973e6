import SpendScript.Proofs.OutputClassification

/-! # Keys in order

Sorting its keys gives a multiple signature output a canonical form. Outputs that ask for as many signatures of the same keys,
each named as often but in whatever order, become one output with one script, and others never do (`sorted_canonical`). Keys are
compared as byte strings, which is a linear order also among keys of different lengths. -/

namespace SpendScript

/-! ### The order of byte strings -/

namespace Bytes
variable {a b c : Bytes}

/-- One string is a start of the other, or has the smaller byte where they first differ. -/
inductive Precedes : Bytes → Bytes → Prop
  | start {a t : Bytes} : Precedes a (a ++ t)
  | smaller {s t u : Bytes} {x y : UInt8} (h : x.toNat < y.toNat) : Precedes (s ++ x :: t) (s ++ y :: u)

theorem Precedes.cons (x : UInt8) (h : Precedes a b) : Precedes (x :: a) (x :: b) := by
  cases h with
  | start => exact .start (a := x :: a)
  | @smaller s _ _ _ _ h => exact .smaller (s := x :: s) h

@[simp] theorem nil_le (b : Bytes) : le [] b = true := rfl

@[simp] theorem cons_le_nil (x : UInt8) (a : Bytes) : le (x :: a) [] = false := by rw [le]

theorem cons_le_cons {x y : UInt8} : le (x :: a) (y :: b) = true ↔ x < y ∨ x = y ∧ le a b = true := by
  rw [le]
  by_cases heq : x = y
  · simp [heq]
  · simp [heq]

theorem le_iff_precedes : le a b = true ↔ Precedes a b := by
  constructor
  · intro h
    induction a generalizing b with
    | nil => exact .start (a := [])
    | cons x a ih =>
      cases b with
      | nil => simp at h
      | cons y b =>
        rcases cons_le_cons.mp h with hlt | ⟨rfl, hle⟩
        · exact .smaller (s := []) hlt
        · exact (ih hle).cons x
  · intro h
    cases h with
    | @start a t =>
      induction a with
      | nil => simp
      | cons x a ih => exact cons_le_cons.mpr (.inr ⟨rfl, ih⟩)
    | @smaller s _ _ _ _ hlt =>
      induction s with
      | nil => exact cons_le_cons.mpr (.inl hlt)
      | cons x s ih => exact cons_le_cons.mpr (.inr ⟨rfl, ih⟩)

theorem le_trans (hab : le a b = true) (hbc : le b c = true) : le a c = true := by
  induction a generalizing b c with
  | nil => simp
  | cons x a ih =>
    cases b with
    | nil => simp at hab
    | cons y b =>
      cases c with
      | nil => simp at hbc
      | cons z c =>
        rw [cons_le_cons] at hab hbc ⊢
        rcases hab with hxy | ⟨rfl, hab⟩ <;> rcases hbc with hyz | ⟨rfl, hbc⟩
        · exact .inl (UInt8.lt_trans hxy hyz)
        · exact .inl hxy
        · exact .inl hyz
        · exact .inr ⟨rfl, ih hab hbc⟩

theorem le_total (a b : Bytes) : le a b = true ∨ le b a = true := by
  induction a generalizing b with
  | nil => exact .inl (nil_le b)
  | cons x a ih =>
    cases b with
    | nil => exact .inr (nil_le _)
    | cons y b =>
      rw [cons_le_cons, cons_le_cons]
      by_cases heq : x = y
      · rcases ih b with h | h
        · exact .inl (.inr ⟨heq, h⟩)
        · exact .inr (.inr ⟨heq.symm, h⟩)
      · rcases UInt8.lt_or_lt_of_ne heq with h | h
        · exact .inl (.inl h)
        · exact .inr (.inl h)

theorem le_antisymm (hab : le a b = true) (hba : le b a = true) : a = b := by
  induction a generalizing b with
  | nil =>
    cases b with
    | nil => rfl
    | cons y b => simp at hba
  | cons x a ih =>
    cases b with
    | nil => simp at hab
    | cons y b =>
      rw [cons_le_cons] at hab hba
      rcases hab with hxy | ⟨rfl, hab⟩ <;> rcases hba with hyx | ⟨heq, hba⟩
      · exact absurd hyx (UInt8.lt_asymm hxy)
      · exact absurd hxy (heq ▸ UInt8.lt_irrefl _)
      · exact absurd hyx (UInt8.lt_irrefl _)
      · rw [ih hab hba]

end Bytes

theorem PublicKey.ext_bytes {k k' : PublicKey} (h : k.bytes = k'.bytes) : k = k' := by
  cases k
  cases k'
  cases h
  rfl

/-! ### Sorted outputs -/

namespace Multisig
variable {a b : Multisig}

theorem ext_parts (hkeys : a.keys = b.keys) (hthreshold : a.threshold = b.threshold) : a = b := by
  cases a
  cases b
  cases hkeys
  cases hthreshold
  rfl

theorem perm_sorted (a : Multisig) : a.sorted.keys.Perm a.keys := List.mergeSort_perm _ _

theorem pairwise_sorted (a : Multisig) : a.sorted.keys.Pairwise fun k k' => k.bytes.le k'.bytes = true := by
  unfold sorted
  refine List.pairwise_mergeSort ?_ ?_ a.keys
  · intro _ _ _ hab hbc
    exact Bytes.le_trans hab hbc
  · intro k k'
    simpa using Bytes.le_total k.bytes k'.bytes

theorem sorted_sorted (a : Multisig) : a.sorted.sorted = a.sorted :=
  ext_parts (List.mergeSort_of_pairwise a.pairwise_sorted) rfl

theorem sorted_eq_sorted_iff : a.sorted = b.sorted ↔ a.threshold = b.threshold ∧ a.keys.Perm b.keys := by
  constructor
  · intro h
    refine ⟨congrArg (·.threshold) h, a.perm_sorted.symm.trans ?_⟩
    rw [h]
    exact b.perm_sorted
  · rintro ⟨hthreshold, hperm⟩
    have hsorted : a.sorted.keys.Perm b.sorted.keys := a.perm_sorted.trans (hperm.trans b.perm_sorted.symm)
    have hantisymm : ∀ k k' : PublicKey, k ∈ a.sorted.keys → k' ∈ b.sorted.keys → k.bytes.le k'.bytes = true →
        k'.bytes.le k.bytes = true → k = k' := fun _ _ _ _ hle hge => PublicKey.ext_bytes (Bytes.le_antisymm hle hge)
    exact ext_parts (hsorted.eq_of_pairwise hantisymm a.pairwise_sorted b.pairwise_sorted) hthreshold

theorem toScript_inj : (Output.multisig a).toScript = (Output.multisig b).toScript ↔ a = b := by
  constructor
  · intro h
    have hsame := congrArg Output.classify h
    rw [Output.classify_toScript rfl, Output.classify_toScript rfl] at hsame
    exact Output.multisig.inj hsame
  · rintro rfl
    rfl

/-- Sorting is a canonical form of outputs that name the same keys as often each and ask for as many signatures, and so is the
    script of a sorted output. A sorted output is one that can be made, its keys are in order, and sorting leaves it as it
    is. -/
theorem sorted_canonical (a b : Multisig) :
    (a.sorted = b.sorted ↔ a.threshold = b.threshold ∧ a.keys.Perm b.keys) ∧
    ((Output.multisig a.sorted).toScript = (Output.multisig b.sorted).toScript ↔
      a.threshold = b.threshold ∧ a.keys.Perm b.keys) ∧
    make (a.sorted.keys.map PublicKey.bytes) a.sorted.threshold = .ok a.sorted ∧
    (a.sorted.keys.map PublicKey.bytes).Pairwise Bytes.Precedes ∧ a.sorted.sorted = a.sorted := by
  refine ⟨sorted_eq_sorted_iff, toScript_inj.trans sorted_eq_sorted_iff, make_keys a.sorted, ?_, a.sorted_sorted⟩
  exact List.pairwise_map.mpr (a.pairwise_sorted.imp Bytes.le_iff_precedes.mp)

end Multisig

end SpendScript
