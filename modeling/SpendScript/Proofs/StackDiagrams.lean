import SpendScript.Proofs.Numbers
import SpendScript.Proofs.Outcome

/-! # Stack diagrams

The opcodes that move, copy and count items are described by diagrams: what they take from the top of the stacks and what they
leave there, above any items below (`Diagram`). Such an opcode fails for want of items where no diagram applies, and for want
of room where the stacks that its diagram leads to would exceed the limit; everywhere else it leads to these stacks
(`run_iff_diagram`). Room is asked for after items were taken, so opcodes that leave no more than they take always have it. -/

namespace SpendScript

/-- The opcodes that move, copy and count items. -/
inductive StackOp
  | drop | drop2 | dup | dup2 | dup3 | over1 | over2 | rot | rot2 | swap | swap2 | nip | tuck | ifDup | depth | size
  | toAlt | fromAlt | pick | roll
  deriving DecidableEq

namespace StackOp

def opcode : StackOp → Opcode
  | drop => 0x75
  | drop2 => 0x6d
  | dup => 0x76
  | dup2 => 0x6e
  | dup3 => 0x6f
  | over1 => 0x78
  | over2 => 0x70
  | rot => 0x7b
  | rot2 => 0x71
  | swap => 0x7c
  | swap2 => 0x72
  | nip => 0x77
  | tuck => 0x7d
  | ifDup => 0x73
  | depth => 0x74
  | size => 0x82
  | toAlt => 0x6b
  | fromAlt => 0x6c
  | pick => 0x79
  | roll => 0x7a

def action : StackOp → Action
  | drop => .drop 1
  | drop2 => .drop 2
  | dup => .dup 1
  | dup2 => .dup 2
  | dup3 => .dup 3
  | over1 => .dupBelow 1
  | over2 => .dupBelow 2
  | rot => .rot 1
  | rot2 => .rot 2
  | swap => .swap 1
  | swap2 => .swap 2
  | nip => .nip
  | tuck => .tuck
  | ifDup => .ifDup
  | depth => .depth
  | size => .size
  | toAlt => .toAlt
  | fromAlt => .fromAlt
  | pick => .pick false
  | roll => .pick true

theorem ofOpcode_opcode (k : StackOp) : Action.ofOpcode k.opcode = k.action := by cases k <;> rfl

example : [drop, drop2, dup, dup2, dup3, over1, over2, rot, rot2, swap, swap2, nip, tuck, ifDup, depth, size, toAlt, fromAlt,
      pick, roll].map (·.opcode.label) =
    ["OP_DROP", "OP_2DROP", "OP_DUP", "OP_2DUP", "OP_3DUP", "OP_OVER", "OP_2OVER", "OP_ROT", "OP_2ROT", "OP_SWAP", "OP_2SWAP",
      "OP_NIP", "OP_TUCK", "OP_IFDUP", "OP_DEPTH", "OP_SIZE", "OP_TOALTSTACK", "OP_FROMALTSTACK", "OP_PICK", "OP_ROLL"] := by
  decide

/-- How many items a diagram shows on the data stack before the opcode. -/
def operands : StackOp → Nat
  | depth | fromAlt => 0
  | drop | dup | ifDup | size | toAlt => 1
  | drop2 | dup2 | over1 | swap | nip | tuck | pick | roll => 2
  | dup3 | rot => 3
  | over2 | swap2 => 4
  | rot2 => 6

/-- Whether the top item gives the depth of the item that is meant. -/
def isIndexed : StackOp → Bool
  | pick | roll => true
  | _ => false

/-- Whether more items may be left than are taken. -/
def grows : StackOp → Bool
  | dup | dup2 | dup3 | over1 | over2 | tuck | ifDup | depth | size => true
  | _ => false

end StackOp

/-- The data stack and the second stack, from the top down. -/
abbrev StackPair := List Bytes × List Bytes

/-- The stacks before an opcode and after it. -/
inductive Diagram (l : Limits) : StackOp → StackPair → StackPair → Prop
  | drop {x : Bytes} {s a : List Bytes} : Diagram l .drop (x :: s, a) (s, a)
  | drop2 {x₁ x₂ : Bytes} {s a : List Bytes} : Diagram l .drop2 (x₂ :: x₁ :: s, a) (s, a)
  | dup {x : Bytes} {s a : List Bytes} : Diagram l .dup (x :: s, a) (x :: x :: s, a)
  | dup2 {x₁ x₂ : Bytes} {s a : List Bytes} : Diagram l .dup2 (x₂ :: x₁ :: s, a) (x₂ :: x₁ :: x₂ :: x₁ :: s, a)
  | dup3 {x₁ x₂ x₃ : Bytes} {s a : List Bytes} :
    Diagram l .dup3 (x₃ :: x₂ :: x₁ :: s, a) (x₃ :: x₂ :: x₁ :: x₃ :: x₂ :: x₁ :: s, a)
  | over1 {x₁ x₂ : Bytes} {s a : List Bytes} : Diagram l .over1 (x₂ :: x₁ :: s, a) (x₁ :: x₂ :: x₁ :: s, a)
  | over2 {x₁ x₂ x₃ x₄ : Bytes} {s a : List Bytes} :
    Diagram l .over2 (x₄ :: x₃ :: x₂ :: x₁ :: s, a) (x₂ :: x₁ :: x₄ :: x₃ :: x₂ :: x₁ :: s, a)
  | rot {x₁ x₂ x₃ : Bytes} {s a : List Bytes} : Diagram l .rot (x₃ :: x₂ :: x₁ :: s, a) (x₁ :: x₃ :: x₂ :: s, a)
  | rot2 {x₁ x₂ x₃ x₄ x₅ x₆ : Bytes} {s a : List Bytes} :
    Diagram l .rot2 (x₆ :: x₅ :: x₄ :: x₃ :: x₂ :: x₁ :: s, a) (x₂ :: x₁ :: x₆ :: x₅ :: x₄ :: x₃ :: s, a)
  | swap {x₁ x₂ : Bytes} {s a : List Bytes} : Diagram l .swap (x₂ :: x₁ :: s, a) (x₁ :: x₂ :: s, a)
  | swap2 {x₁ x₂ x₃ x₄ : Bytes} {s a : List Bytes} :
    Diagram l .swap2 (x₄ :: x₃ :: x₂ :: x₁ :: s, a) (x₂ :: x₁ :: x₄ :: x₃ :: s, a)
  | nip {x₁ x₂ : Bytes} {s a : List Bytes} : Diagram l .nip (x₂ :: x₁ :: s, a) (x₂ :: s, a)
  | tuck {x₁ x₂ : Bytes} {s a : List Bytes} : Diagram l .tuck (x₂ :: x₁ :: s, a) (x₂ :: x₁ :: x₂ :: s, a)
  | ifTrue {x : Bytes} {s a : List Bytes} (h : Number.isTrue x = true) : Diagram l .ifDup (x :: s, a) (x :: x :: s, a)
  | ifFalse {x : Bytes} {s a : List Bytes} (h : Number.isTrue x = false) : Diagram l .ifDup (x :: s, a) (x :: s, a)
  | depth {s a : List Bytes} : Diagram l .depth (s, a) (Number.encode s.length :: s, a)
  | size {x : Bytes} {s a : List Bytes} : Diagram l .size (x :: s, a) (Number.encode x.length :: x :: s, a)
  | toAlt {x : Bytes} {s a : List Bytes} : Diagram l .toAlt (x :: s, a) (s, x :: a)
  | fromAlt {x : Bytes} {s a : List Bytes} : Diagram l .fromAlt (s, x :: a) (x :: s, a)
  | pick {index x : Bytes} {xs s a : List Bytes} (h : l.number index = .ok xs.length) :
    Diagram l .pick (index :: (xs ++ x :: s), a) (x :: (xs ++ x :: s), a)
  | roll {index x : Bytes} {xs s a : List Bytes} (h : l.number index = .ok xs.length) :
    Diagram l .roll (index :: (xs ++ x :: s), a) (x :: (xs ++ s), a)

theorem Fault.reported_eq_unwritable {f : Fault} {n : Int} (hn : n ∈ f.numbers) (h : ¬Text.Writable n) :
    f.reported = .unwritableNumber := by
  unfold reported
  refine if_neg fun hall => h ?_
  exact of_decide_eq_true (List.all_eq_true.mp hall n hn)

namespace Machine
variable {env : Env} {m : Machine} {op : Opcode} {index x y : Bytes} {xs ys s a : List Bytes} {n : Nat}

/-- The two stacks together are of a size that a list can have. -/
def Sized (m : Machine) : Prop := (m.size : Int) < Capacity.sizeEnd

/-! ### Outcomes -/

/-- The outcome of a part that fails with a fault of some class. -/
def Raises (c : FaultClass) (x : Except Halt Machine) : Prop := ∃ halt, x = .error halt ∧ halt.fault.faultClass = c

/-- The outcome of a part that puts given stacks in place of those of the machine, if they are within the limit. -/
inductive Yields (env : Env) (m : Machine) (s a : List Bytes) : Except Halt Machine → Prop
  | fits (h : (s.length + a.length : Int) ≤ env.limits.stackSize) : Yields env m s a (.ok { m with stack := s, alt := a })
  | exceeds {x : Except Halt Machine} (h : env.limits.stackSize < s.length + a.length)
    (hraises : Raises .stackSizeTooLarge x) : Yields env m s a x

theorem Raises.unique {c c' : FaultClass} {x : Except Halt Machine} (h : Raises c x) (h' : Raises c' x) : c = c' := by
  obtain ⟨halt, rfl, rfl⟩ := h
  obtain ⟨_, heq, rfl⟩ := h'
  cases heq
  rfl

theorem Raises.not_ok {c : FaultClass} {x : Except Halt Machine} {m' : Machine} (h : Raises c x) : x ≠ .ok m' := by
  obtain ⟨halt, rfl, -⟩ := h
  exact nofun

theorem Yields.eq_ok {x : Except Halt Machine} (h : Yields env m s a x)
    (hfits : (s.length + a.length : Int) ≤ env.limits.stackSize) : x = .ok { m with stack := s, alt := a } := by
  cases h with
  | fits => rfl
  | exceeds hfull => omega

theorem Yields.raises {x : Except Halt Machine} (h : Yields env m s a x)
    (hfull : env.limits.stackSize < s.length + a.length) : Raises .stackSizeTooLarge x := by
  cases h with
  | fits hfits => omega
  | exceeds _ hraises => exact hraises

theorem Yields.of_raises {c : FaultClass} {x : Except Halt Machine} (h : Yields env m s a x) (hx : Raises c x) :
    c = .stackSizeTooLarge ∧ env.limits.stackSize < s.length + a.length := by
  cases h with
  | fits => exact absurd rfl hx.not_ok
  | exceeds hfull hraises => exact ⟨hx.unique hraises, hfull⟩

theorem Yields.of_ok {x : Except Halt Machine} {m' : Machine} (h : Yields env m s a x) (hx : x = .ok m') :
    (s.length + a.length : Int) ≤ env.limits.stackSize ∧ m' = { m with stack := s, alt := a } := by
  cases h with
  | fits hfits => exact ⟨hfits, (Except.ok.inj hx).symm⟩
  | exceeds _ hraises => exact absurd hx hraises.not_ok

theorem fail_raises {f : Fault} {c : FaultClass} (h : f.reported.faultClass = c) : Raises c (m.fail f) :=
  ⟨⟨f.reported, m⟩, rfl, h⟩

theorem fail_raises_of_writable {f : Fault} {n : Int} (hn : f.numbers = [n]) (h : Text.Writable n) :
    Raises f.faultClass (m.fail f) := by
  refine fail_raises (congrArg Fault.faultClass (Fault.reported_eq_self fun k hk => ?_))
  rw [hn] at hk
  rwa [List.mem_singleton.mp hk]

theorem fail_raises_of_unwritable {f : Fault} {n : Int} (hn : n ∈ f.numbers) (h : ¬Text.Writable n) :
    Raises .badValue (m.fail f) := by
  refine fail_raises ?_
  rw [Fault.reported_eq_unwritable hn h]
  rfl

theorem Raises.bind {α : Type} {f : Fault} {c : FaultClass} (h : Raises c (m.fail f)) (k : α → Except Halt Machine) :
    Raises c (m.fail f >>= k) := h

theorem requireDepth_raises {depth : Int} (h : m.stack.length < depth) (hdepth : depth ≤ 6) (k : Unit → Except Halt Machine) :
    Raises .stackUnderflow (m.requireDepth depth >>= k) := by
  have hfail : m.requireDepth depth = m.fail (.stackDepth m.stack.length depth) := if_pos h
  have hwritable : Text.Writable depth := Text.writable_of_natAbs_lt (k := 1) (by decide) (by omega)
  rw [hfail]
  exact (fail_raises_of_writable rfl hwritable).bind k

theorem requireDepth_bind {α : Type} {depth : Int} (h : depth ≤ m.stack.length) (k : Unit → Except Halt α) :
    (m.requireDepth depth >>= k) = k () := by
  rw [requireDepth_eq_ok.mpr h]
  rfl

theorem peek_bind {α : Type} (h : m.stack[n]? = some x) (k : Bytes → Except Halt α) : (m.peek n >>= k) = k x := by
  rw [peek_eq_ok.mpr h]
  rfl

theorem pop_bind {α : Type} (h : n ≤ m.stack.length) (k : Machine → Except Halt α) :
    (m.pop n >>= k) = k { m with stack := m.stack.drop n } := by
  rw [pop_eq h]
  rfl

/-! ### Items that are put on the stacks -/

section
variable (hsize : (m.size : Int) < Capacity.sizeEnd) (hroom : (m.size : Int) ≤ env.limits.stackSize)
include hsize hroom

/-- Room that is asked for once items were taken, or before any were. -/
theorem requireRoom_yields {t b : List Bytes} {count : Nat} (hle : t.length + b.length ≤ m.size) (hcount : count ≤ m.size + 1)
    (hlength : s.length + a.length = t.length + b.length + count) :
    Yields env m s a
      (requireRoom { m with stack := t, alt := b } env count >>= fun _ => .ok { m with stack := s, alt := a }) := by
  have htotal : ((t.length + b.length : Nat) : Int) + count = s.length + a.length := by omega
  unfold Capacity.sizeEnd at hsize
  by_cases hfull : env.limits.stackSize < ((t.length + b.length : Nat) : Int) + count
  · have hfail : requireRoom { m with stack := t, alt := b } env count =
        fail { m with stack := t, alt := b } (.stackSize env.limits.stackSize) := if_pos hfull
    -- the limit is below a size that values can have, so the message can show it
    have hwritable : Text.Writable env.limits.stackSize := Text.writable_of_natAbs_lt (k := 20) (by decide) (by omega)
    rw [hfail]
    exact .exceeds (by omega) ((fail_raises_of_writable rfl hwritable).bind _)
  · have hok : requireRoom { m with stack := t, alt := b } env count = .ok () := if_neg hfull
    rw [hok]
    exact .fits (by omega)

theorem pushAll_yields {t b : List Bytes} (hle : t.length + b.length ≤ m.size) (items : List Bytes)
    (hcount : items.length ≤ m.size + 1) :
    Yields env m (items ++ t) b (pushAll { m with stack := t, alt := b } env items) :=
  requireRoom_yields hsize hroom hle hcount (by rw [List.length_append]; omega)

theorem push_yields (item : Bytes) : Yields env m (item :: m.stack) m.alt (m.push env item) :=
  pushAll_yields hsize hroom (Nat.le_refl m.size) [item] (Nat.le_add_left 1 m.size)

/-! ### The diagrams of the actions -/

omit hsize in
theorem drop_yields (xs : List Bytes) (h : m.stack = xs ++ s) : Yields env m s m.alt (perform env op m (.drop xs.length)) := by
  have hlength : m.stack.length = xs.length + s.length := by rw [h, List.length_append]
  change Yields env m s m.alt (m.requireDepth xs.length >>= fun _ => m.pop xs.length)
  rw [requireDepth_bind (by omega), pop_eq (by omega), h, List.drop_left]
  unfold size at hroom
  exact .fits (by omega)

theorem dup_yields (xs : List Bytes) (h : m.stack = xs ++ s) :
    Yields env m (xs ++ m.stack) m.alt (perform env op m (.dup xs.length)) := by
  have hlength : m.stack.length = xs.length + s.length := by rw [h, List.length_append]
  change Yields env m _ m.alt (m.requireDepth xs.length >>= fun _ => m.pushAll env (m.stack.take xs.length))
  have htake : m.stack.take xs.length = xs := by rw [h, List.take_left]
  rw [requireDepth_bind (by omega), htake]
  exact pushAll_yields hsize hroom (Nat.le_refl m.size) _ (by unfold size; omega)

theorem dupBelow_yields (xs ys : List Bytes) (h : m.stack = xs ++ (ys ++ s)) (hn : xs.length = n ∧ ys.length = n) :
    Yields env m (ys ++ m.stack) m.alt (perform env op m (.dupBelow n)) := by
  have hlength : m.stack.length = n + (n + s.length) := by rw [h, List.length_append, List.length_append, hn.1, hn.2]
  change Yields env m _ m.alt (m.requireDepth (2 * n : Nat) >>= fun _ => m.pushAll env ((m.stack.drop n).take n))
  have hbelow : (m.stack.drop n).take n = ys := by rw [h, ← hn.1, List.drop_left, hn.1, ← hn.2, List.take_left]
  rw [requireDepth_bind (by omega), hbelow]
  exact pushAll_yields hsize hroom (Nat.le_refl m.size) _ (by unfold size; omega)

theorem moveToTop_yields (xs ys : List Bytes) (h : m.stack = xs ++ (ys ++ s)) {depth : Nat}
    (hdepth : xs.length + ys.length = depth) :
    Yields env m (ys ++ (xs ++ s)) m.alt (moveToTop env depth ys.length m) := by
  have hlength : m.stack.length = xs.length + (ys.length + s.length) := by rw [h, List.length_append, List.length_append]
  have hrest : m.stack.drop depth = s := by rw [h, ← List.append_assoc, ← hdepth, ← List.length_append, List.drop_left]
  have hupper : m.stack.take (depth - ys.length) = xs := by rw [h, ← hdepth, Nat.add_sub_cancel, List.take_left]
  have hmoved : (m.stack.drop (depth - ys.length)).take ys.length = ys := by
    rw [h, ← hdepth, Nat.add_sub_cancel, List.drop_left, List.take_left]
  unfold moveToTop
  rw [requireDepth_bind (by omega), pop_bind (by omega), hrest, hupper, hmoved]
  refine pushAll_yields hsize hroom (t := xs ++ s) (b := m.alt) ?_ ys (by unfold size; omega)
  rw [List.length_append]
  unfold size
  omega

theorem ifDup_yields (h : m.stack = x :: s) {t : List Bytes} (ht : (if Number.isTrue x then x :: m.stack else m.stack) = t) :
    Yields env m t m.alt (perform env op m .ifDup) := by
  change Yields env m _ m.alt (m.requireDepth 1 >>= fun _ => m.peek 0 >>= fun item =>
    if Number.isTrue item then m.push env item else .ok m)
  rw [← ht, requireDepth_bind (by rw [h, List.length_cons]; omega), peek_bind (by rw [h]; rfl)]
  split
  · exact push_yields hsize hroom x
  · exact .fits hroom

theorem attempt_item_yields (n : Int) :
    Yields env m (Number.encode n :: m.stack) m.alt (m.attempt (Number.item n) >>= fun item => m.push env item) := by
  rw [Number.item_eq n]
  exact push_yields hsize hroom _

omit hsize in
theorem nip_yields (h : m.stack = x :: y :: s) : Yields env m (x :: s) m.alt (perform env op m .nip) := by
  change Yields env m _ m.alt (m.requireDepth 2 >>= fun _ => m.peek 0 >>= fun item => m.replace 2 item)
  have hlength : m.stack.length = s.length + 2 := by rw [h]; rfl
  rw [requireDepth_bind (by omega), peek_bind (by rw [h]; rfl), replace_eq (by omega), h]
  unfold size at hroom
  exact .fits (by rw [List.length_cons]; omega)

theorem tuck_yields (h : m.stack = x :: y :: s) : Yields env m (x :: y :: x :: s) m.alt (perform env op m .tuck) := by
  change Yields env m _ m.alt (m.requireDepth 2 >>= fun _ => m.peek 0 >>= fun item => m.requireRoom env 1 >>= fun _ =>
    .ok { m with stack := m.stack.insertIdx 2 item })
  have hlength : m.stack.length = s.length + 2 := by rw [h]; rfl
  have htucked : m.stack.insertIdx 2 x = x :: y :: x :: s := by rw [h]; rfl
  rw [requireDepth_bind (by omega), peek_bind (by rw [h]; rfl), htucked]
  refine requireRoom_yields hsize hroom (t := m.stack) (b := m.alt) (Nat.le_refl m.size) (Nat.le_add_left 1 m.size) ?_
  rw [hlength, List.length_cons, List.length_cons, List.length_cons]
  omega

theorem depth_yields : Yields env m (Number.encode m.stack.length :: m.stack) m.alt (perform env op m .depth) :=
  attempt_item_yields hsize hroom m.stack.length

theorem size_yields (h : m.stack = x :: s) :
    Yields env m (Number.encode x.length :: m.stack) m.alt (perform env op m .size) := by
  change Yields env m _ m.alt (m.requireDepth 1 >>= fun _ => m.peek 0 >>= fun item =>
    m.attempt (Number.item item.length) >>= fun item => m.push env item)
  rw [requireDepth_bind (by rw [h, List.length_cons]; omega), peek_bind (by rw [h]; rfl)]
  exact attempt_item_yields hsize hroom x.length

theorem toAlt_yields (h : m.stack = x :: s) : Yields env m s (x :: m.alt) (perform env op m .toAlt) := by
  change Yields env m _ _ (m.requireDepth 1 >>= fun _ => m.peek 0 >>= fun item => m.pop 1 >>= fun m =>
    m.pushAllAlt env [item])
  have hlength : m.stack.length = s.length + 1 := by rw [h]; rfl
  rw [requireDepth_bind (by omega), peek_bind (by rw [h]; rfl), pop_bind (by omega), h]
  refine requireRoom_yields hsize hroom (t := s) (b := m.alt) ?_ (Nat.le_add_left 1 m.size) ?_
  · unfold size
    omega
  · rw [List.length_cons, List.length_singleton]
    omega

theorem fromAlt_yields (h : m.alt = x :: a) : Yields env m (x :: m.stack) a (perform env op m .fromAlt) := by
  have hlength : m.alt.length = a.length + 1 := by rw [h]; rfl
  have halt : m.requireAlt = .ok () := if_neg (by rw [h]; exact List.cons_ne_nil x a)
  have hpop : m.popAlt = .ok (x, { m with alt := a }) := by
    unfold popAlt
    rw [h]
  change Yields env m _ _ (m.requireAlt >>= fun _ => m.popAlt >>= fun r => r.2.push env r.1)
  rw [halt, hpop]
  refine pushAll_yields hsize hroom (t := m.stack) (b := a) ?_ [x] (Nat.le_add_left 1 m.size)
  unfold size
  omega

/-! ### Items at a depth that the top item gives -/

omit hsize hroom in
theorem pick_eq (remove : Bool) (h : m.stack = index :: s) (hs : s ≠ []) :
    pick env remove m = m.attempt (env.limits.number index) >>= fun n =>
      if 0 ≤ n ∧ n < s.length then
        peek { m with stack := s } n.toNat >>= fun item =>
          push { m with stack := if remove then s.eraseIdx n.toNat else s } env item
      else fail { m with stack := s } (.pickRange (if remove then Opcode.opRoll else Opcode.opPick) n s.length) := by
  have hlength : m.stack.length = s.length + 1 := by rw [h]; rfl
  have hpos : 0 < s.length := List.length_pos_iff.mpr hs
  unfold pick
  rw [requireDepth_bind (by omega), peek_bind (by rw [h]; rfl)]
  congr 1
  funext n
  rw [pop_bind (by omega), h]
  rfl

theorem pick_yields (remove : Bool) (h : m.stack = index :: (xs ++ x :: s)) (hn : env.limits.number index = .ok xs.length) :
    Yields env m (x :: if remove then xs ++ s else xs ++ x :: s) m.alt (pick env remove m) := by
  have hrest : xs ++ x :: s ≠ [] := List.append_ne_nil_of_right_ne_nil xs (List.cons_ne_nil x s)
  have hlength : (xs ++ x :: s).length = xs.length + (s.length + 1) := by rw [List.length_append, List.length_cons]
  have htotal : m.stack.length = (xs ++ x :: s).length + 1 := by rw [h, List.length_cons]
  have hitem : (xs ++ x :: s)[xs.length]? = some x := by simp
  have herase : (xs ++ x :: s).eraseIdx xs.length = xs ++ s := by simp [List.eraseIdx_append_of_length_le]
  have hrange : 0 ≤ (xs.length : Int) ∧ (xs.length : Int) < (xs ++ x :: s).length := by omega
  rw [pick_eq remove h hrest, hn]
  change Yields env m _ _ (if 0 ≤ (xs.length : Int) ∧ (xs.length : Int) < (xs ++ x :: s).length then _ else _)
  rw [if_pos hrange, Int.toNat_natCast, peek_bind hitem, herase]
  have hkept : (if remove then xs ++ s else xs ++ x :: s).length ≤ (xs ++ x :: s).length := by cases remove <;> simp
  refine pushAll_yields hsize hroom (t := if remove then xs ++ s else xs ++ x :: s) (b := m.alt) ?_ [x]
    (Nat.le_add_left 1 m.size)
  unfold size
  omega

end

theorem pick_eq_fail (remove : Bool) (h : m.stack = index :: s) (hs : s ≠ []) {n : Int}
    (hn : env.limits.number index = .ok n) (hrange : ¬(0 ≤ n ∧ n < s.length)) :
    pick env remove m =
      fail { m with stack := s } (.pickRange (if remove then Opcode.opRoll else Opcode.opPick) n s.length) := by
  rw [pick_eq remove h hs, hn]
  exact if_neg hrange

theorem pick_eq_refused (remove : Bool) (h : m.stack = index :: s) (hs : s ≠ []) {f : Fault}
    (hf : env.limits.number index = .error f) : pick env remove m = .error ⟨f, m⟩ := by
  rw [pick_eq remove h hs, hf]
  rfl

end Machine

/-! ### All opcodes -/

namespace StackOp
open Machine
variable {env : Env} {l : Limits} {k : StackOp} {m : Machine}

/-- What an opcode does where it is executed. -/
def run (env : Env) (k : StackOp) (m : Machine) : Except Halt Machine := perform env k.opcode m (.ofOpcode k.opcode)

/-- The stacks do not hold what the diagram shows: there are too few items, or the second stack is empty, or there is no item
    at the depth that the top item gives. -/
inductive Lacks (l : Limits) (m : Machine) : StackOp → Prop
  | operands {k : StackOp} (h : m.stack.length < k.operands) : Lacks l m k
  | second (h : m.alt = []) : Lacks l m .fromAlt
  | range {k : StackOp} {index : Bytes} {s : List Bytes} {n : Int} (hk : k.isIndexed = true) (h : m.stack = index :: s)
    (hn : l.number index = .ok n) (hw : Text.Writable n) (hrange : ¬(0 ≤ n ∧ n < s.length)) : Lacks l m k

/-- The top item gives no depth: the limits do not accept it as a number, or the number is too long to be written. -/
inductive Unreadable (l : Limits) (m : Machine) (k : StackOp) : Prop
  | refused {index x : Bytes} {s : List Bytes} {f : Fault} (hk : k.isIndexed = true)
    (h : m.stack = index :: x :: s) (hf : l.number index = .error f)
  | unwritable {index x : Bytes} {s : List Bytes} {n : Int} (hk : k.isIndexed = true)
    (h : m.stack = index :: x :: s) (hn : l.number index = .ok n) (hw : ¬Text.Writable n)

theorem run_eq_pick (env : Env) (m : Machine) (hk : k.isIndexed = true) :
    ∃ remove, k.run env m = Machine.pick env remove m := by
  unfold run
  rw [ofOpcode_opcode]
  cases k with
  | pick => exact ⟨false, rfl⟩
  | roll => exact ⟨true, rfl⟩
  | _ => cases hk

theorem checkNumberLength_cases (l : Limits) (size : Int) : l.checkNumberLength size = .ok () ∨
    ∃ f, l.checkNumberLength size = .error f ∧ f.faultClass ∈ [FaultClass.numericRange, .badValue] := by
  unfold Limits.checkNumberLength
  split
  · exact .inl rfl
  · refine .inr ⟨_, rfl, ?_⟩
    rcases Fault.reported_cases (.numberLength size l.numberLength) with hf | hf
    · rw [hf]
      exact List.mem_cons_self
    · rw [hf]
      decide

theorem number_error_class {index : Bytes} {f : Fault} (h : l.number index = .error f) :
    f.faultClass ∈ [FaultClass.minimalEncoding, .numericRange, .badValue] := by
  unfold Limits.number at h
  rcases checkNumberLength_cases l index.length with hlength | ⟨f', hlength, hclass⟩
  · rw [hlength] at h
    change (if _ then _ else _) = _ at h
    split at h
    · cases h
      exact List.mem_cons_self
    · cases h
  · rw [hlength] at h
    cases h
    exact List.mem_cons_of_mem _ hclass

theorem not_range_of_unwritable {index : Bytes} {s : List Bytes} {n : Int} (hm : m.Sized) (h : m.stack = index :: s)
    (hw : ¬Text.Writable n) : ¬(0 ≤ n ∧ n < s.length) := by
  rintro ⟨hlow, hhigh⟩
  refine hw (Text.writable_of_natAbs_lt (k := 20) (by decide) ?_)
  unfold Sized Machine.size Capacity.sizeEnd at hm
  rw [h, List.length_cons] at hm
  omega

theorem run_raises (h : Lacks env.limits m k) : Raises .stackUnderflow (k.run env m) := by
  cases h with
  | operands h =>
    unfold run
    rw [ofOpcode_opcode]
    cases k with
    | depth | fromAlt => cases h
    | _ => exact requireDepth_raises (Int.ofNat_lt.mpr h) (by decide) _
  | second h =>
    have hfail : m.requireAlt = m.fail .altStackEmpty := if_pos h
    change Raises _ (m.requireAlt >>= _)
    rw [hfail]
    exact (fail_raises rfl).bind _
  | @range _ index s n hk h hn hw hrange =>
    obtain ⟨remove, hrun⟩ := run_eq_pick env m hk
    rw [hrun]
    by_cases hs : s = []
    · exact requireDepth_raises (by rw [h, hs, List.length_singleton]; decide) (by decide) _
    · rw [pick_eq_fail remove h hs hn hrange]
      exact fail_raises_of_writable rfl hw

theorem run_eq_refused {index x : Bytes} {s : List Bytes} {f : Fault} (hk : k.isIndexed = true) (h : m.stack = index :: x :: s)
    (hf : env.limits.number index = .error f) : k.run env m = .error ⟨f, m⟩ := by
  obtain ⟨remove, hrun⟩ := run_eq_pick env m hk
  rw [hrun, pick_eq_refused remove h (List.cons_ne_nil x s) hf]

theorem run_raises_of_unwritable {index x : Bytes} {s : List Bytes} {n : Int} (hm : m.Sized) (hk : k.isIndexed = true)
    (h : m.stack = index :: x :: s) (hn : env.limits.number index = .ok n) (hw : ¬Text.Writable n) :
    Raises .badValue (k.run env m) := by
  obtain ⟨remove, hrun⟩ := run_eq_pick env m hk
  rw [hrun, pick_eq_fail remove h (List.cons_ne_nil x s) hn (not_range_of_unwritable hm h hw)]
  exact fail_raises_of_unwritable (List.mem_singleton_self n) hw

theorem run_raises_of_unreadable (hm : m.Sized) (h : Unreadable env.limits m k) :
    ∃ c ∈ [FaultClass.minimalEncoding, .numericRange, .badValue], Raises c (k.run env m) := by
  cases h with
  | refused hk h hf => exact ⟨_, number_error_class hf, _, run_eq_refused hk h hf, rfl⟩
  | unwritable hk h hn hw => exact ⟨.badValue, by decide, run_raises_of_unwritable hm hk h hn hw⟩

theorem run_yields (hm : m.Sized) (hroom : (m.size : Int) ≤ env.limits.stackSize) {s a : List Bytes}
    (h : Diagram env.limits k (m.stack, m.alt) (s, a)) : Yields env m s a (k.run env m) := by
  unfold run
  rw [ofOpcode_opcode]
  have hsize : (m.size : Int) < Capacity.sizeEnd := hm
  -- once the stacks are spelled out, a diagram is the action's lemma for the items that it shows
  cases m
  cases h with
  | @drop x => exact drop_yields hroom [x] rfl
  | @drop2 x₁ x₂ => exact drop_yields hroom [x₂, x₁] rfl
  | @dup x => exact dup_yields hsize hroom [x] rfl
  | @dup2 x₁ x₂ => exact dup_yields hsize hroom [x₂, x₁] rfl
  | @dup3 x₁ x₂ x₃ => exact dup_yields hsize hroom [x₃, x₂, x₁] rfl
  | @over1 x₁ x₂ => exact dupBelow_yields hsize hroom [x₂] [x₁] rfl ⟨rfl, rfl⟩
  | @over2 x₁ x₂ x₃ x₄ => exact dupBelow_yields hsize hroom [x₄, x₃] [x₂, x₁] rfl ⟨rfl, rfl⟩
  | @rot x₁ x₂ x₃ => exact moveToTop_yields hsize hroom [x₃, x₂] [x₁] rfl rfl
  | @rot2 x₁ x₂ x₃ x₄ x₅ x₆ => exact moveToTop_yields hsize hroom [x₆, x₅, x₄, x₃] [x₂, x₁] rfl rfl
  | @swap x₁ x₂ => exact moveToTop_yields hsize hroom [x₂] [x₁] rfl rfl
  | @swap2 x₁ x₂ x₃ x₄ => exact moveToTop_yields hsize hroom [x₄, x₃] [x₂, x₁] rfl rfl
  | nip => exact nip_yields hroom rfl
  | tuck => exact tuck_yields hsize hroom rfl
  | ifTrue htrue => exact ifDup_yields hsize hroom rfl (if_pos htrue)
  | ifFalse hfalse => exact ifDup_yields hsize hroom rfl (if_neg (ne_true_of_eq_false hfalse))
  | depth => exact depth_yields hsize hroom
  | size => exact size_yields hsize hroom rfl
  | toAlt => exact toAlt_yields hsize hroom rfl
  | fromAlt => exact fromAlt_yields hsize hroom rfl
  | pick hn => exact pick_yields hsize hroom false rfl hn
  | roll hn => exact pick_yields hsize hroom true rfl hn

theorem exists_cons {n : Nat} {s : List Bytes} (h : n + 1 ≤ s.length) : ∃ x t, s = x :: t ∧ n ≤ t.length := by
  cases s with
  | nil => cases h
  | cons x t => exact ⟨x, t, rfl, Nat.le_of_succ_le_succ h⟩

/-- A diagram other than one with an index applies wherever there are items enough. -/
theorem exists_diagram {s a : List Bytes} (hk : k.isIndexed = false) (h : k.operands ≤ s.length)
    (ha : k = .fromAlt → a ≠ []) : ∃ after, Diagram l k (s, a) after := by
  cases k with
  | pick | roll => cases hk
  | depth => exact ⟨_, .depth⟩
  | fromAlt =>
    obtain ⟨x, a, rfl⟩ := List.exists_cons_of_ne_nil (ha rfl)
    exact ⟨_, .fromAlt⟩
  | ifDup =>
    obtain ⟨x, s, rfl, -⟩ := exists_cons h
    cases hx : Number.isTrue x with
    | true => exact ⟨_, .ifTrue hx⟩
    | false => exact ⟨_, .ifFalse hx⟩
  | drop | dup | size | toAlt =>
    obtain ⟨x, s, rfl, -⟩ := exists_cons h
    exact ⟨_, by constructor⟩
  | drop2 | dup2 | over1 | swap | nip | tuck =>
    obtain ⟨x₂, s, rfl, h₁⟩ := exists_cons h
    obtain ⟨x₁, s, rfl, -⟩ := exists_cons h₁
    exact ⟨_, by constructor⟩
  | dup3 | rot =>
    obtain ⟨x₃, s, rfl, h₂⟩ := exists_cons h
    obtain ⟨x₂, s, rfl, h₁⟩ := exists_cons h₂
    obtain ⟨x₁, s, rfl, -⟩ := exists_cons h₁
    exact ⟨_, by constructor⟩
  | over2 | swap2 =>
    obtain ⟨x₄, s, rfl, h₃⟩ := exists_cons h
    obtain ⟨x₃, s, rfl, h₂⟩ := exists_cons h₃
    obtain ⟨x₂, s, rfl, h₁⟩ := exists_cons h₂
    obtain ⟨x₁, s, rfl, -⟩ := exists_cons h₁
    exact ⟨_, by constructor⟩
  | rot2 =>
    obtain ⟨x₆, s, rfl, h₅⟩ := exists_cons h
    obtain ⟨x₅, s, rfl, h₄⟩ := exists_cons h₅
    obtain ⟨x₄, s, rfl, h₃⟩ := exists_cons h₄
    obtain ⟨x₃, s, rfl, h₂⟩ := exists_cons h₃
    obtain ⟨x₂, s, rfl, h₁⟩ := exists_cons h₂
    obtain ⟨x₁, s, rfl, -⟩ := exists_cons h₁
    exact ⟨_, .rot2⟩

/-- A diagram with an index applies wherever there is an item at the depth that it gives. -/
theorem exists_diagram_of_index {index : Bytes} {s a : List Bytes} {n : Int} (hk : k.isIndexed = true)
    (hn : l.number index = .ok n) (hrange : 0 ≤ n ∧ n < s.length) : ∃ after, Diagram l k (index :: s, a) after := by
  have hlt : n.toNat < s.length := by omega
  have hsplit : s = s.take n.toNat ++ s[n.toNat] :: s.drop (n.toNat + 1) := by
    rw [List.getElem_cons_drop, List.take_append_drop]
  have hcount : l.number index = .ok (s.take n.toNat).length := by
    rw [hn, List.length_take, Nat.min_eq_left (Nat.le_of_lt hlt), Int.toNat_of_nonneg hrange.1]
  rw [hsplit]
  cases k with
  | pick => exact ⟨_, .pick hcount⟩
  | roll => exact ⟨_, .roll hcount⟩
  | _ => cases hk

theorem lacks_or_unreadable_or_diagram (l : Limits) (k : StackOp) (m : Machine) :
    Lacks l m k ∨ Unreadable l m k ∨ ∃ after, Diagram l k (m.stack, m.alt) after := by
  by_cases hdepth : m.stack.length < k.operands
  · exact .inl (.operands hdepth)
  by_cases halt : k = .fromAlt ∧ m.alt = []
  · exact .inl (halt.1 ▸ .second halt.2)
  cases hk : k.isIndexed with
  | false => exact .inr (.inr (exists_diagram hk (by omega) fun h h' => halt ⟨h, h'⟩))
  | true =>
    have htwo : 1 + 1 ≤ m.stack.length := by
      cases k with
      | pick | roll => exact Nat.not_lt.mp hdepth
      | _ => cases hk
    obtain ⟨index, s, hs, hnext⟩ := exists_cons htwo
    obtain ⟨x, s, rfl, -⟩ := exists_cons (n := 0) hnext
    cases hn : l.number index with
    | error f => exact .inr (.inl (.refused hk hs hn))
    | ok n =>
      by_cases hw : Text.Writable n
      · by_cases hrange : 0 ≤ n ∧ n < (x :: s).length
        · rw [hs]
          exact .inr (.inr (exists_diagram_of_index hk hn hrange))
        · exact .inl (.range hk hs hn hw hrange)
      · exact .inr (.inl (.unwritable hk hs hn hw))

theorem length_le_of_not_grows {before after : StackPair} (hk : k.grows = false) (h : Diagram l k before after) :
    after.1.length + after.2.length ≤ before.1.length + before.2.length := by
  cases h with
  | dup | dup2 | dup3 | over1 | over2 | tuck | ifTrue | ifFalse | depth | size => cases hk
  | drop | drop2 | rot | rot2 | swap | swap2 | nip | toAlt | fromAlt | pick | roll =>
    simp only [List.length_cons, List.length_append]
    omega

theorem run_cases (hm : m.Sized) (hroom : (m.size : Int) ≤ env.limits.stackSize) :
    (Lacks env.limits m k ∧ Raises .stackUnderflow (k.run env m)) ∨
    (Unreadable env.limits m k ∧ ∃ c ∈ [FaultClass.minimalEncoding, .numericRange, .badValue], Raises c (k.run env m)) ∨
    ∃ s a, Diagram env.limits k (m.stack, m.alt) (s, a) ∧ Yields env m s a (k.run env m) := by
  rcases lacks_or_unreadable_or_diagram env.limits k m with hlacks | hunread | ⟨⟨s, a⟩, hdiagram⟩
  · exact .inl ⟨hlacks, run_raises hlacks⟩
  · exact .inr (.inl ⟨hunread, run_raises_of_unreadable hm hunread⟩)
  · exact .inr (.inr ⟨s, a, hdiagram, run_yields hm hroom hdiagram⟩)

/-- An opcode fails for want of items exactly where the stacks lack what its diagram shows, for want of room exactly where the
    stacks that its diagram leads to exceed the limit, and otherwise leads to these stacks and changes nothing else. -/
theorem run_iff_diagram (env : Env) (k : StackOp) (m : Machine) (hm : m.Sized)
    (hroom : (m.size : Int) ≤ env.limits.stackSize) :
    (Raises .stackUnderflow (k.run env m) ↔ Lacks env.limits m k) ∧
    (Raises .stackSizeTooLarge (k.run env m) ↔
      ∃ s a, Diagram env.limits k (m.stack, m.alt) (s, a) ∧ env.limits.stackSize < s.length + a.length) ∧
    (∀ m', k.run env m = .ok m' ↔ ∃ s a, Diagram env.limits k (m.stack, m.alt) (s, a) ∧
      (s.length + a.length : Int) ≤ env.limits.stackSize ∧ m' = { m with stack := s, alt := a }) ∧
    (Lacks env.limits m k ∨ Unreadable env.limits m k ∨ ∃ after, Diagram env.limits k (m.stack, m.alt) after) ∧
    (k.grows = false → ¬Lacks env.limits m k → ¬Unreadable env.limits m k → ∃ m', k.run env m = .ok m') ∧
    (k.isIndexed = true → ∀ index x s f, m.stack = index :: x :: s → env.limits.number index = .error f →
      k.run env m = .error ⟨f, m⟩) := by
  refine ⟨⟨fun h => ?_, run_raises⟩, ⟨fun h => ?_, ?_⟩, fun m' => ⟨fun h => ?_, ?_⟩,
    lacks_or_unreadable_or_diagram env.limits k m, fun hk hlacks hread => ?_,
    fun hk index x s f h hf => run_eq_refused hk h hf⟩
  · rcases run_cases hm hroom with ⟨hlacks, -⟩ | ⟨-, c, hc, hraises⟩ | ⟨s, a, -, hyields⟩
    · exact hlacks
    · exact absurd (h.unique hraises ▸ hc) (by decide)
    · cases (hyields.of_raises h).1
  · rcases run_cases hm hroom with ⟨-, hraises⟩ | ⟨-, c, hc, hraises⟩ | ⟨s, a, hdiagram, hyields⟩
    · cases h.unique hraises
    · exact absurd (h.unique hraises ▸ hc) (by decide)
    · exact ⟨s, a, hdiagram, (hyields.of_raises h).2⟩
  · rintro ⟨s, a, hdiagram, hfull⟩
    exact (run_yields hm hroom hdiagram).raises hfull
  · rcases run_cases hm hroom with ⟨-, hraises⟩ | ⟨-, c, -, hraises⟩ | ⟨s, a, hdiagram, hyields⟩
    · exact absurd h hraises.not_ok
    · exact absurd h hraises.not_ok
    · exact ⟨s, a, hdiagram, hyields.of_ok h⟩
  · rintro ⟨s, a, hdiagram, hfits, rfl⟩
    exact (run_yields hm hroom hdiagram).eq_ok hfits
  · rcases run_cases hm hroom with ⟨hlacks', -⟩ | ⟨hunread, -⟩ | ⟨s, a, hdiagram, hyields⟩
    · exact absurd hlacks' hlacks
    · exact absurd hunread hread
    · have hle : s.length + a.length ≤ m.stack.length + m.alt.length := length_le_of_not_grows hk hdiagram
      unfold Machine.size at hroom
      exact ⟨_, hyields.eq_ok (by omega)⟩

/-- On stacks that are full, items can be moved but not copied. -/
theorem run_iff_diagram_full :
    Sized { stack := [[2], [7], [8], [9]], alt := [[5]] } ∧
    roll.run ⟨{ stackSize := 5 }, none, .standard⟩ { stack := [[2], [7], [8], [9]], alt := [[5]] } =
      .ok { stack := [[9], [7], [8]], alt := [[5]] } ∧
    rot.run ⟨{ stackSize := 5 }, none, .standard⟩ { stack := [[2], [7], [8], [9]], alt := [[5]] } =
      .ok { stack := [[8], [2], [7], [9]], alt := [[5]] } ∧
    Raises .stackSizeTooLarge
      (tuck.run ⟨{ stackSize := 5 }, none, .standard⟩ { stack := [[2], [7], [8], [9]], alt := [[5]] }) ∧
    Raises .stackUnderflow
      (rot2.run ⟨{ stackSize := 5 }, none, .standard⟩ { stack := [[2], [7], [8], [9]], alt := [[5]] }) := by
  have hm : Sized { stack := [[2], [7], [8], [9]], alt := [[5]] } := by
    unfold Sized
    decide
  have h := fun k => run_iff_diagram ⟨{ stackSize := 5 }, none, .standard⟩ k { stack := [[2], [7], [8], [9]], alt := [[5]] } hm
    (by decide)
  refine ⟨hm, ?_, ?_, ?_, ?_⟩
  · exact ((h roll).2.2.1 _).mpr ⟨_, _, @Diagram.roll _ [2] [9] [[7], [8]] [] [[5]] rfl, by decide, rfl⟩
  · exact ((h rot).2.2.1 _).mpr ⟨_, _, .rot, by decide, rfl⟩
  · exact (h tuck).2.1.mpr ⟨_, _, .tuck, by decide⟩
  · exact (h rot2).1.mpr (.operands (by decide))

/-- An index that takes too many bytes is refused as a number before its range matters. -/
theorem pick_long_index :
    Number.decode [0, 0, 0, 0x80, 0] = 2 ^ 31 ∧
    pick.run ⟨.default, none, .standard⟩ { stack := [[0, 0, 0, 0x80, 0], [1]] } =
      .error ⟨.numberLength 5 4, { stack := [[0, 0, 0, 0x80, 0], [1]] }⟩ ∧
    ¬Raises .stackUnderflow (pick.run ⟨.default, none, .standard⟩ { stack := [[0, 0, 0, 0x80, 0], [1]] }) := by
  have hreported : (Fault.numberLength 5 4).reported = .numberLength 5 4 := Fault.reported_eq_self (by decide +kernel)
  have hnumber : Limits.default.number [0, 0, 0, 0x80, 0] = .error (.numberLength 5 4) := congrArg Except.error hreported
  have hrun : pick.run ⟨.default, none, .standard⟩ { stack := [[0, 0, 0, 0x80, 0], [1]] } =
      .error ⟨.numberLength 5 4, { stack := [[0, 0, 0, 0x80, 0], [1]] }⟩ := run_eq_refused rfl rfl hnumber
  refine ⟨by decide, hrun, fun h => ?_⟩
  cases h.unique ⟨_, hrun, rfl⟩

end StackOp

end SpendScript
