import SpendScript.Stack.Pool

/-! # The limit over a run of stack operations

A family of stacks never holds more items than its limit allows, over any run of operations, as long as the items that are
put back from a copy fit beside those of the other members (`run_within_iff`). Room is asked for where items are added, but not
where a copy is restored: what its family has gained since the copy was made is not counted then (`restore_over_limit`). An
operation that fails leaves the pool as it was, since no operation changes a stack before its last check. -/

namespace SpendScript.Pool

/-! ### Sizes of families -/

section
variable {g n : Nat} {s : FamilyStack} {l : List FamilyStack}

/-- How many items the stacks of a family hold. -/
def familySize (g : Nat) (l : List FamilyStack) : Nat := ((l.filter (·.family == g)).flatMap (·.items)).length

/-- How many of them a stack holds. -/
def share (g : Nat) (s : FamilyStack) : Nat := if s.family = g then s.items.length else 0

theorem share_nil (family : Nat) : share g ⟨[], family⟩ = 0 := by simp [share]

theorem familySize_cons : familySize g (s :: l) = share g s + familySize g l := by
  by_cases h : s.family = g <;> simp [familySize, share, h]

theorem familySize_append : familySize g (l ++ [s]) = familySize g l + share g s := by
  by_cases h : s.family = g <;> simp [familySize, share, h]

theorem familySize_modify (f : FamilyStack → FamilyStack) (h : n < l.length) :
    familySize g (l.modify n f) + share g l[n] = familySize g l + share g (f l[n]) := by
  induction l generalizing n with
  | nil => cases h
  | cons s l ih =>
    cases n with
    | zero =>
      simp only [List.modify_zero_cons, List.getElem_cons_zero, familySize_cons]
      omega
    | succ n =>
      have ih := ih (Nat.lt_of_succ_lt_succ h)
      simp only [List.modify_succ_cons, List.getElem_cons_succ, familySize_cons]
      omega

theorem familySize_eq_zero (h : ∀ s ∈ l, s.family ≠ g) : familySize g l = 0 := by
  have hnone : l.filter (·.family == g) = [] := by simpa using h
  simp [familySize, hnone]

end

section
variable {p : Pool} {g n m : Nat}

theorem stack_eq (h : n < p.members.length) : p.stack n = p.members[n] := by
  unfold stack
  rw [List.getD_eq_getElem?_getD, List.getElem?_eq_getElem h, Option.getD_some]

theorem length_withItems (items : List Bytes) : (p.withItems n items).members.length = p.members.length := by
  simp [withItems]

theorem stack_withItems (items : List Bytes) (h : m < p.members.length) :
    (p.withItems n items).stack m = if m = n then ⟨items, (p.stack m).family⟩ else p.stack m := by
  have h' : m < (p.withItems n items).members.length := by rwa [length_withItems]
  rw [stack_eq h, stack_eq h']
  simp only [withItems, List.getElem_modify, eq_comm]

theorem familySize_withItems (items : List Bytes) (h : n < p.members.length) :
    familySize g (p.withItems n items).members + share g (p.stack n) =
      familySize g p.members + share g ⟨items, (p.stack n).family⟩ := by
  rw [stack_eq h]
  exact familySize_modify _ h

end

/-! ### Operations -/

/-- The operations that change a pool, with the numbers of the stacks that they are made on. -/
inductive Op
  | append (n : Nat) (item : Bytes)
  | insert (n : Nat) (index : Int) (item : Bytes)
  | extend (n : Nat) (items : List Bytes)
  | pop (n : Nat) (index : Int)
  | clear (n : Nat)
  | set (n : Nat) (index : Int) (item : Bytes)
  | setSlice (n : Nat)
  | child (n : Nat)
  | copy (n : Nat)
  | restore (n source : Nat)
  deriving DecidableEq, Repr

namespace Op

def perform : Op → Change Unit
  | append n item => Pool.append n item
  | insert n index item => Pool.insert n index item
  | extend n items => Pool.extend n items
  | pop n index => do let _ ← Pool.pop n index
  | clear n => Pool.clear n
  | set n index item => Pool.set n index item
  | setSlice _ => Pool.setSlice
  | child n => do let _ ← Pool.child n
  | copy n => do let _ ← Pool.copy n
  | restore n source => Pool.restore n source

/-- The stacks that an operation reads or changes. -/
def stacksOf : Op → List Nat
  | append n _ | insert n _ _ | extend n _ | pop n _ | clear n | set n _ _ | setSlice n | child n | copy n => [n]
  | restore n source => [n, source]

end Op

section
variable {α β : Type} {p : Pool} {Q R : α → Pool → Prop}

/-- A change fails and leaves the pool as it was, or it leads to a value and a pool that fulfil `Q`. -/
def AllOrNothing (x : Change α) (p : Pool) (Q : α → Pool → Prop) : Prop :=
  (∃ f, x p = .error f p) ∨ ∃ a q, x p = .ok a q ∧ Q a q

theorem AllOrNothing.mono {x : Change α} (h : AllOrNothing x p Q) (k : ∀ a q, Q a q → R a q) : AllOrNothing x p R := by
  rcases h with h | ⟨a, q, hx, hq⟩
  · exact .inl h
  · exact .inr ⟨a, q, hx, k a q hq⟩

/-- What comes after a check finds the pool that the check found. -/
theorem AllOrNothing.bind {x : Change α} {f : α → Change β} {C : α → Prop} {Q : β → Pool → Prop}
    (h : AllOrNothing x p fun a q => q = p ∧ C a) (k : ∀ a, C a → AllOrNothing (f a) p Q) : AllOrNothing (x >>= f) p Q := by
  rcases h with ⟨e, hx⟩ | ⟨a, q, hx, rfl, ha⟩
  · exact .inl ⟨e, by simp [Bind.bind, EStateM.bind, hx]⟩
  · have hf : (x >>= f) q = f a q := by simp [Bind.bind, EStateM.bind, hx]
    rcases k a ha with ⟨e, he⟩ | ⟨b, q', hb, hq⟩
    · exact .inl ⟨e, hf.trans he⟩
    · exact .inr ⟨b, q', hf.trans hb, hq⟩

theorem AllOrNothing.then_return {x : Change α} (h : AllOrNothing x p Q) (b : β) :
    AllOrNothing (do let _ ← x; return b) p fun _ q => ∃ a, Q a q := by
  rcases h with ⟨e, hx⟩ | ⟨a, q, hx, hq⟩
  · exact .inl ⟨e, by simp [Bind.bind, EStateM.bind, hx]⟩
  · exact .inr ⟨b, q, by simp [Bind.bind, EStateM.bind, hx, pure, EStateM.pure], a, hq⟩

theorem requireRoom_allOrNothing (p : Pool) (n count : Nat) :
    AllOrNothing (requireRoom n count) p fun _ q => q = p ∧ (p.combinedSize n + count : Int) ≤ p.limit := by
  by_cases h : p.limit < p.combinedSize n + count
  · exact .inl ⟨_, if_pos h⟩
  · exact .inr ⟨(), p, if_neg h, rfl, Int.not_lt.mp h⟩

theorem checkIndex_allOrNothing (p : Pool) (index : Int) :
    AllOrNothing (checkIndex index) p fun _ q => q = p ∧ True := by
  unfold AllOrNothing checkIndex
  split
  · exact .inr ⟨(), p, rfl, rfl, trivial⟩
  · exact .inl ⟨_, rfl⟩

theorem place_allOrNothing (p : Pool) (n : Nat) (index : Int) : AllOrNothing (place n index) p fun _ q => q = p ∧ True := by
  unfold AllOrNothing place
  cases position? (p.items n).length index with
  | none => exact .inl ⟨_, rfl⟩
  | some i => exact .inr ⟨i, p, rfl, rfl, trivial⟩

theorem update_allOrNothing (p : Pool) (n : Nat) (f : List Bytes → List Bytes) :
    AllOrNothing (update n f) p fun _ q => q = p.withItems n (f (p.items n)) :=
  .inr ⟨(), _, rfl, rfl⟩

end

/-- What an operation that succeeds leaves. Items change in one stack, and only grow if there is room; or a stack is added;
    or the items of a copy take the place of others. -/
inductive Leaves (p : Pool) : Op → Pool → Prop
  | put {op : Op} {n : Nat} {items : List Bytes} (hn : n ∈ op.stacksOf)
    (hitems : items.length ≤ (p.items n).length ∨ (p.combinedSize n + items.length : Int) ≤ p.limit + (p.items n).length) :
    Leaves p op (p.withItems n items)
  | child (n : Nat) : Leaves p (.child n) { p with members := p.members ++ [⟨[], (p.stack n).family⟩] }
  | copy (n : Nat) : Leaves p (.copy n) { p with members := p.members ++ [⟨p.items n, p.members.length⟩] }
  | restore (n source : Nat) : Leaves p (.restore n source) ((p.withItems n (p.items source)).withItems source [])

theorem clamp_le (length : Nat) (index : Int) : clamp length index ≤ length := Nat.min_le_right _ _

theorem extend_leaves (p : Pool) (n : Nat) (items : List Bytes) {op : Op} (hn : n ∈ op.stacksOf) :
    AllOrNothing (extend n items) p fun _ q => Leaves p op q := by
  refine (requireRoom_allOrNothing p n items.length).bind fun _ hroom => (update_allOrNothing p n _).mono ?_
  rintro - q rfl
  refine .put hn (.inr ?_)
  rw [List.length_append]
  omega

theorem perform_leaves (op : Op) (p : Pool) : AllOrNothing op.perform p fun _ q => Leaves p op q := by
  cases op with
  | append n item => exact extend_leaves p n [item] List.mem_cons_self
  | insert n index item =>
    refine (requireRoom_allOrNothing p n 1).bind fun _ hroom => (checkIndex_allOrNothing p index).bind fun _ _ =>
      (update_allOrNothing p n _).mono ?_
    rintro - q rfl
    refine .put List.mem_cons_self (.inr ?_)
    rw [List.length_insertIdx_of_le_length (clamp_le _ _)]
    omega
  | extend n items => exact extend_leaves p n items List.mem_cons_self
  | pop n index =>
    have hpop : AllOrNothing (pop n index) p fun _ q => ∃ i, q = p.withItems n ((p.items n).eraseIdx i) := by
      refine (checkIndex_allOrNothing p index).bind fun _ _ => (place_allOrNothing p n index).bind fun i _ => ?_
      exact .inr ⟨_, _, rfl, i, rfl⟩
    refine (hpop.then_return ()).mono ?_
    rintro - q ⟨-, i, rfl⟩
    exact .put List.mem_cons_self (.inl (List.length_eraseIdx_le _ i))
  | clear n => exact .inr ⟨(), _, rfl, .put List.mem_cons_self (.inl (Nat.zero_le _))⟩
  | set n index item =>
    refine (place_allOrNothing p n index).bind fun i _ => (update_allOrNothing p n _).mono ?_
    rintro - q rfl
    refine .put List.mem_cons_self (.inl (Nat.le_of_eq ?_))
    exact List.length_set
  | setSlice n => exact .inl ⟨_, rfl⟩
  | child n => exact .inr ⟨(), _, rfl, .child n⟩
  | copy n => exact .inr ⟨(), _, rfl, .copy n⟩
  | restore n source => exact .inr ⟨(), _, rfl, .restore n source⟩

/-- A failed operation changes no stack. -/
theorem eq_of_perform_error {op : Op} {p q : Pool} {f : Fault} (h : op.perform p = .error f q) : q = p := by
  rcases perform_leaves op p with ⟨e, he⟩ | ⟨a, q', hok, -⟩
  · rw [he] at h
    cases h
    rfl
  · rw [hok] at h
    cases h

/-! ### Runs -/

/-- The pool after an operation, failed or not. -/
def after (p : Pool) (op : Op) : Pool :=
  match op.perform p with
  | .ok _ q | .error _ q => q

theorem after_cases (p : Pool) (op : Op) : p.after op = p ∨ Leaves p op (p.after op) := by
  unfold after
  rcases perform_leaves op p with ⟨e, he⟩ | ⟨a, q, hok, hq⟩
  · rw [he]
    exact .inl rfl
  · rw [hok]
    exact .inr hq

/-- A relation holds of each operation of a run and the pool that it finds. -/
def Along (P : Pool → Op → Prop) : Pool → List Op → Prop
  | _, [] => True
  | p, op :: ops => P p op ∧ Along P (p.after op) ops

/-- The stacks that an operation is made on are in the pool. -/
def Finds (p : Pool) (op : Op) : Prop := ∀ n ∈ op.stacksOf, n < p.members.length

/-- After an operation no family holds more items than the limit allows. -/
def KeepsLimit (limit : Int) (p : Pool) (op : Op) : Prop :=
  ∀ n < (p.after op).members.length, ((p.after op).combinedSize n : Int) ≤ limit

/-- The items of a copy from another family fit in place of those of the stack. -/
def HasRoom (p : Pool) : Op → Prop
  | .restore n source => (p.stack source).family = (p.stack n).family ∨
      (p.combinedSize n + (p.items source).length : Int) ≤ p.limit + (p.items n).length
  | _ => True

/-- No family holds more items than the limit allows. -/
def Within (p : Pool) : Prop := ∀ g, (familySize g p.members : Int) ≤ p.limit

/-- The number of a family is that of a stack. -/
def Founded (p : Pool) : Prop := ∀ s ∈ p.members, s.family < p.members.length

instance (p : Pool) (op : Op) : Decidable (p.Finds op) := inferInstanceAs (Decidable (∀ n ∈ op.stacksOf, _))

instance (limit : Int) (p : Pool) (op : Op) : Decidable (p.KeepsLimit limit op) := inferInstanceAs (Decidable (∀ n < _, _))

instance Along.decidable {P : Pool → Op → Prop} [∀ p op, Decidable (P p op)] : ∀ p ops, Decidable (Along P p ops)
  | _, [] => .isTrue trivial
  | p, op :: ops => have := decidable (P := P) (p.after op) ops; inferInstanceAs (Decidable (P p op ∧ _))

section
variable {p q : Pool} {op : Op}

theorem within_iff (h : 0 ≤ p.limit) : p.Within ↔ ∀ n < p.members.length, (p.combinedSize n : Int) ≤ p.limit := by
  constructor
  · intro hw n _
    exact hw _
  · intro hw g
    by_cases hg : ∃ s ∈ p.members, s.family = g
    · obtain ⟨s, hs, rfl⟩ := hg
      obtain ⟨n, hn, rfl⟩ := List.getElem_of_mem hs
      have hsize := hw n hn
      unfold combinedSize at hsize
      rwa [stack_eq hn] at hsize
    · rw [familySize_eq_zero fun s hs heq => hg ⟨s, hs, heq⟩]
      exact h

theorem familySize_fresh (h : p.Founded) : familySize p.members.length p.members = 0 :=
  familySize_eq_zero fun s hs => Nat.ne_of_lt (h s hs)

theorem Founded.family_lt {n : Nat} (h : p.Founded) (hn : n < p.members.length) : (p.stack n).family < p.members.length := by
  rw [stack_eq hn]
  exact h _ (List.getElem_mem hn)

theorem Founded.withItems {n : Nat} {items : List Bytes} (h : p.Founded) : (p.withItems n items).Founded := by
  intro s hs
  rw [length_withItems]
  obtain ⟨m, hm, rfl⟩ := List.getElem_of_mem hs
  rw [length_withItems] at hm
  simp only [Pool.withItems, List.getElem_modify]
  split
  · exact h p.members[m] (List.getElem_mem hm)
  · exact h p.members[m] (List.getElem_mem hm)

theorem Founded.add {s : FamilyStack} (h : p.Founded) (hs : s.family ≤ p.members.length) :
    Founded { p with members := p.members ++ [s] } := by
  intro t ht
  rw [List.length_append]
  rcases List.mem_append.mp ht with ht | ht
  · exact Nat.lt_succ_of_lt (h t ht)
  · rw [List.mem_singleton.mp ht]
    exact Nat.lt_succ_of_le hs

theorem Leaves.limit_eq (h : Leaves p op q) : q.limit = p.limit := by
  cases h <;> rfl

theorem Leaves.founded (h : Leaves p op q) (hp : p.Founded) (hfinds : p.Finds op) : q.Founded := by
  cases h with
  | put hn hitems => exact hp.withItems
  | child n => exact hp.add (Nat.le_of_lt (hp.family_lt (hfinds n List.mem_cons_self)))
  | copy n => exact hp.add (Nat.le_refl _)
  | restore n source => exact hp.withItems.withItems

/-! ### What an operation does to the families -/

theorem combinedSize_eq (p : Pool) (n : Nat) : p.combinedSize n = familySize (p.stack n).family p.members := rfl

theorem Within.put {n : Nat} {items : List Bytes} (hw : p.Within) (hn : n < p.members.length)
    (hitems : items.length ≤ (p.items n).length ∨ (p.combinedSize n + items.length : Int) ≤ p.limit + (p.items n).length) :
    (p.withItems n items).Within := by
  intro g
  have hsize := familySize_withItems (g := g) items hn
  have hbefore := hw g
  change (familySize g (p.withItems n items).members : Int) ≤ p.limit
  by_cases hg : (p.stack n).family = g
  · simp only [share, hg, if_true] at hsize
    rw [combinedSize_eq, hg] at hitems
    simp only [Pool.items] at hitems
    omega
  · simp only [share, if_neg hg] at hsize
    omega

theorem Within.add {s : FamilyStack} (hw : p.Within)
    (hs : (familySize s.family p.members + s.items.length : Int) ≤ p.limit) :
    Within { p with members := p.members ++ [s] } := by
  intro g
  have hbefore := hw g
  change (familySize g (p.members ++ [s]) : Int) ≤ p.limit
  rw [familySize_append, share]
  split
  · rename_i hg
    rw [hg] at hs
    omega
  · omega

/-- The items of the stack are gone, and those of the copy have taken their place, or are gone too if the copy is the stack. -/
theorem familySize_restore {n source : Nat} (g : Nat) (hn : n < p.members.length) (hsource : source < p.members.length) :
    familySize g ((p.withItems n (p.items source)).withItems source []).members + share g (p.stack source) +
        share g (p.stack n) =
      familySize g p.members + share g ⟨p.items source, (p.stack n).family⟩ := by
  have hput := familySize_withItems (g := g) (p.items source) hn
  have hemptied := familySize_withItems (p := p.withItems n (p.items source)) (g := g) [] (by rwa [length_withItems])
  rw [stack_withItems _ hsource, share_nil] at hemptied
  by_cases hne : source = n
  · subst hne
    rw [if_pos rfl] at hemptied
    have hsame : share g ⟨p.items source, (p.stack source).family⟩ = share g (p.stack source) := rfl
    omega
  · rw [if_neg hne] at hemptied
    omega

theorem restore_within_iff {n source : Nat} (hw : p.Within) (hn : n < p.members.length) (hsource : source < p.members.length) :
    ((p.withItems n (p.items source)).withItems source []).Within ↔ p.HasRoom (.restore n source) := by
  have hsize := fun g => familySize_restore g hn hsource
  constructor
  · intro hafter
    refine Classical.or_iff_not_imp_left.mpr fun hother => ?_
    have hlimit := hafter (p.stack n).family
    have hsize := hsize (p.stack n).family
    simp only [share, if_true, if_neg hother] at hsize
    change (familySize _ _ : Int) ≤ p.limit at hlimit
    rw [combinedSize_eq]
    simp only [Pool.items] at hsize hlimit ⊢
    omega
  · intro hroom g
    have hbefore := hw g
    have hsize := hsize g
    change (familySize g _ : Int) ≤ p.limit
    by_cases hg : (p.stack n).family = g
    · by_cases hother : (p.stack source).family = g
      · simp only [share, hg, hother, if_true, Pool.items] at hsize ⊢
        omega
      · have hroom := hroom.resolve_left fun heq => hother (heq.trans hg)
        rw [combinedSize_eq, hg] at hroom
        simp only [share, hg, if_true, if_neg hother, Pool.items] at hsize hroom ⊢
        omega
    · simp only [share, if_neg hg] at hsize
      omega

theorem Finds.of_restore {n source : Nat} (h : p.Finds (.restore n source)) :
    n < p.members.length ∧ source < p.members.length :=
  ⟨h n List.mem_cons_self, h source (List.mem_cons_of_mem _ List.mem_cons_self)⟩

theorem Leaves.within (h : Leaves p op q) (hp : p.Founded) (hw : p.Within) (hfinds : p.Finds op) (hroom : p.HasRoom op) :
    q.Within := by
  cases h with
  | put hn hitems => exact hw.put (hfinds _ hn) hitems
  | child n =>
    refine hw.add ?_
    have hbefore := hw (p.stack n).family
    simpa using hbefore
  | copy n =>
    -- a copy starts a family that no stack is in yet
    refine hw.add ?_
    have hfresh := familySize_fresh hp
    have hfamily := familySize_withItems (g := (p.stack n).family) [] (hfinds n List.mem_cons_self)
    have hbefore := hw (p.stack n).family
    rw [share_nil, share, if_pos rfl] at hfamily
    simp only [hfresh, Pool.items]
    omega
  | restore n source => exact (restore_within_iff hw hfinds.of_restore.1 hfinds.of_restore.2).mpr hroom

theorem after_within_iff (hp : p.Founded) (hw : p.Within) (hfinds : p.Finds op) : (p.after op).Within ↔ p.HasRoom op := by
  constructor
  · intro hafter
    cases op with
    | restore n source => exact (restore_within_iff hw hfinds.of_restore.1 hfinds.of_restore.2).mp hafter
    | _ => exact trivial
  · intro hroom
    rcases after_cases p op with heq | hleaves
    · rwa [heq]
    · exact hleaves.within hp hw hfinds hroom

theorem after_limit (p : Pool) (op : Op) : (p.after op).limit = p.limit := by
  rcases after_cases p op with heq | hleaves
  · rw [heq]
  · exact hleaves.limit_eq

/-- What every pool of a run fulfils as long as the copies that are restored find room. -/
structure Sound (limit : Int) (p : Pool) : Prop where
  nonneg : 0 ≤ limit
  limit_eq : p.limit = limit
  founded : p.Founded
  within : p.Within

namespace Sound
variable {limit : Int}

theorem start (h : 0 ≤ limit) : Sound limit (single limit) where
  nonneg := h
  limit_eq := rfl
  founded := by simp [Founded, single]
  within := by
    intro g
    change (familySize g [⟨[], 0⟩] : Int) ≤ limit
    rw [familySize_cons, share_nil]
    exact h

theorem keepsLimit_iff (h : Sound limit p) (hfinds : p.Finds op) : p.KeepsLimit limit op ↔ p.HasRoom op := by
  have hlimit := (after_limit p op).trans h.limit_eq
  rw [← after_within_iff h.founded h.within hfinds, within_iff (hlimit ▸ h.nonneg), hlimit]
  exact Iff.rfl

theorem after (h : Sound limit p) (hfinds : p.Finds op) (hroom : p.HasRoom op) : Sound limit (p.after op) := by
  rcases after_cases p op with heq | hleaves
  · rwa [heq]
  · exact ⟨h.nonneg, hleaves.limit_eq.trans h.limit_eq, hleaves.founded h.founded hfinds,
      hleaves.within h.founded h.within hfinds hroom⟩

theorem along_iff (h : Sound limit p) {ops : List Op} (hfinds : Along Finds p ops) :
    Along (KeepsLimit limit) p ops ↔ Along HasRoom p ops := by
  induction ops generalizing p with
  | nil => exact Iff.rfl
  | cons op ops ih =>
    have hstep := h.keepsLimit_iff hfinds.1
    constructor
    · rintro ⟨hkeeps, hrest⟩
      have hroom := hstep.mp hkeeps
      exact ⟨hroom, (ih (h.after hfinds.1 hroom) hfinds.2).mp hrest⟩
    · rintro ⟨hroom, hrest⟩
      exact ⟨hstep.mpr hroom, (ih (h.after hfinds.1 hroom) hfinds.2).mpr hrest⟩

end Sound

end

/-- Over a run of operations the limit is kept after each of them exactly if each copy that is restored finds room; and an
    operation that fails changes no stack. -/
theorem run_within_iff {limit : Int} (hlimit : 0 ≤ limit) {ops : List Op} (hfinds : Along Finds (single limit) ops) :
    (Along (KeepsLimit limit) (single limit) ops ↔ Along HasRoom (single limit) ops) ∧
      ∀ (p q : Pool) (op : Op) (f : Fault), op.perform p = .error f q → q = p :=
  ⟨(Sound.start hlimit).along_iff hfinds, fun _ _ _ _ h => eq_of_perform_error h⟩

/-- A copy of two items is restored beside a child that holds one, and the child is then refused a second one. -/
def refilled : List Op :=
  [.extend 0 [[1], [2]], .copy 0, .child 0, .append 2 [3], .clear 0, .restore 0 1, .append 2 [4]]

theorem run_within_iff_refilled : Along Finds (single 3) refilled ∧
    (Along (KeepsLimit 3) (single 3) refilled ↔ Along HasRoom (single 3) refilled) ∧
      ∀ (p q : Pool) (op : Op) (f : Fault), op.perform p = .error f q → q = p := by
  have hfinds : Along Finds (single 3) refilled := by decide
  exact ⟨hfinds, run_within_iff (by decide) hfinds⟩

/-- A child takes the room of an item that a copy still has. -/
def overfilled : List Op := [.append 0 [0xaa], .copy 0, .clear 0, .child 0, .append 2 [0xbb], .restore 0 1]

/-- The item comes back, and the family holds two items under a limit of one. -/
theorem restore_over_limit : Along Finds (single 1) overfilled ∧ ¬Along (KeepsLimit 1) (single 1) overfilled ∧
    (overfilled.foldl after (single 1)).combinedSize 0 = 2 := by
  decide

end SpendScript.Pool
