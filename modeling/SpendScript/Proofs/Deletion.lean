import SpendScript.Proofs.Codec
import SpendScript.Script.Delete

/-! # Deleting an operation

The bytes of one operation stand at the start of another only if the two are the same. Deleting them from a script
therefore leaves the other operations, and what stands after the last whole one, as they are
(`Script.delete_toBytes`). Several deletions leave out all the operations that are deleted
(`Script.without_withoutAll`). -/

namespace SpendScript

/-- Written operations are told apart by their bytes, whatever follows them. -/
theorem Operation.isPrefixOf_toBytes {o p : Operation} (ho : o.isDistinct = true) (hp : p.isDistinct = true)
    (rest : Bytes) : o.toBytes.isPrefixOf (p.toBytes ++ rest) = true ↔ p = o := by
  rw [List.isPrefixOf_iff_prefix]
  constructor
  · rintro ⟨after, h⟩
    rw [o.toBytes_eq, p.toBytes_eq, List.cons_append, List.cons_append] at h
    obtain ⟨hop, hrest⟩ := List.cons.inj h
    have hread := read_append ho after
    rw [hop, hrest, read_append hp rest] at hread
    exact Except.ok.inj hread
  · rintro rfl
    exact List.prefix_append _ _

namespace Script
open Operation

/-- The script without an operation, wherever it stands. -/
def without (o : Operation) (script : Bytes) : Bytes :=
  ofOps ((listing script).ops.filter (· ≠ o)) ++ (listing script).tail

theorem ofOps_cons_append (p : Operation) (ops : List Operation) (rest : Bytes) :
    ofOps (p :: ops) ++ rest = p.toBytes ++ (ofOps ops ++ rest) := List.append_assoc _ _ _

/-- Nothing is ever pending where an operation starts, as an occurrence is that operation. -/
theorem deleteFrom_ofOps {o : Operation} (ho : o.isDistinct = true) {ops : List Operation}
    (h : ∀ p ∈ ops, p.isDistinct = true) (rest : Bytes) :
    deleteFrom o.toBytes ops (ofOps ops ++ rest) 0 = ofOps (ops.filter (· ≠ o)) ++ rest := by
  induction ops with
  | nil => rfl
  | cons p ops ih =>
    have hsame := isPrefixOf_toBytes ho (h p List.mem_cons_self) (ofOps ops ++ rest)
    have htake : (p.toBytes ++ (ofOps ops ++ rest)).take p.size = p.toBytes := List.take_left' p.length_toBytes
    have hdrop : (p.toBytes ++ (ofOps ops ++ rest)).drop p.size = ofOps ops ++ rest := List.drop_left' p.length_toBytes
    rw [ofOps_cons_append]
    unfold deleteFrom
    dsimp only
    rw [htake, hdrop]
    by_cases hp : p = o
    · rw [if_pos ⟨rfl, hsame.mpr hp⟩, List.filter_cons_of_neg (by simp [hp]), hp, o.length_toBytes, Nat.sub_self,
        ih fun q hq => h q (List.mem_cons_of_mem _ hq), ← o.length_toBytes, List.drop_length]
      rfl
    · rw [if_neg fun hmatch => hp (hsame.mp hmatch.2), List.filter_cons_of_pos (by simp [hp]), Nat.zero_sub,
        ih fun q hq => h q (List.mem_cons_of_mem _ hq), ofOps_cons_append]
      rfl

theorem length_deleteFrom_le (pattern : Bytes) (ops : List Operation) (bytes : Bytes) (pending : Nat) :
    (deleteFrom pattern ops bytes pending).length ≤ bytes.length := by
  induction ops generalizing bytes pending with
  | nil =>
    unfold deleteFrom
    simp
  | cons p ops ih =>
    unfold deleteFrom
    dsimp only
    have hrest := fun pending => ih (bytes.drop p.size) pending
    simp only [List.length_drop] at hrest
    grind

theorem length_withoutSeparators_le (script : Bytes) : (withoutSeparators script).length ≤ script.length := by
  unfold withoutSeparators delete
  rw [if_neg (List.cons_ne_nil _ _)]
  exact length_deleteFrom_le _ _ _ _

theorem delete_toBytes {o : Operation} (ho : o.isDistinct = true) (script : Bytes) :
    delete o.toBytes script = without o script := by
  have hne : o.toBytes ≠ [] := by
    rw [o.toBytes_eq]
    exact List.cons_ne_nil _ _
  have hwhole := ofOps_listing script
  unfold delete without
  rw [if_neg hne]
  conv => lhs; arg 3; rw [← hwhole]
  exact deleteFrom_ofOps ho isDistinct_scan _

/-- The script without some operations, wherever they stand. -/
def withoutAll (os : List Operation) (script : Bytes) : Bytes :=
  ofOps ((listing script).ops.filter (· ∉ os)) ++ (listing script).tail

theorem isDistinct_listing (script : Bytes) : ∀ o ∈ (listing script).ops, o.isDistinct = true := isDistinct_scan

/-- What follows the last whole operation does not begin with one. -/
theorem listing_tail (script : Bytes) : listing (listing script).tail = ⟨[], (listing script).cut⟩ := by
  have hsplit := listing_ofOps (isDistinct_listing script) (listing script).tail
  rw [ofOps_listing] at hsplit
  have hops := congrArg Listing.ops hsplit
  have hcut := congrArg Listing.cut hsplit
  dsimp only at hops hcut
  rw [hcut]
  exact congrArg (Listing.mk · _) (List.append_right_eq_self.mp hops.symm)

theorem listing_filter (keep : Operation → Bool) (script : Bytes) :
    listing (ofOps ((listing script).ops.filter keep) ++ (listing script).tail) =
      ⟨(listing script).ops.filter keep, (listing script).cut⟩ := by
  rw [listing_ofOps fun o ho => isDistinct_listing script o (List.mem_filter.mp ho).1, listing_tail, List.append_nil]

theorem withoutAll_nil (script : Bytes) : withoutAll [] script = script := by
  unfold withoutAll
  rw [List.filter_eq_self.mpr (by simp)]
  exact ofOps_listing script

theorem without_withoutAll (o : Operation) (os : List Operation) (script : Bytes) :
    without o (withoutAll os script) = withoutAll (o :: os) script := by
  have hfilter : ((listing script).ops.filter (· ∉ os)).filter (· ≠ o) = (listing script).ops.filter (· ∉ o :: os) := by
    rw [List.filter_filter]
    congr 1
    funext p
    simp [Bool.decide_and]
  unfold without withoutAll
  rw [listing_filter, hfilter]
  rfl

theorem withoutAll_singleton (o : Operation) (script : Bytes) : withoutAll [o] script = without o script := by
  rw [← without_withoutAll, withoutAll_nil]

theorem withoutAll_congr {os os' : List Operation} (h : ∀ o, o ∈ os ↔ o ∈ os') (script : Bytes) :
    withoutAll os script = withoutAll os' script := by
  unfold withoutAll
  simp only [h]

/-- A script that does not hold the operation stays as it is. -/
theorem without_of_not_mem {o : Operation} {script : Bytes} (h : o ∉ (listing script).ops) : without o script = script := by
  have hall : (listing script).ops.filter (· ≠ o) = (listing script).ops := by
    refine List.filter_eq_self.mpr fun p hp => decide_eq_true ?_
    rintro rfl
    exact h hp
  unfold without
  rw [hall]
  exact ofOps_listing script

end Script

end SpendScript
