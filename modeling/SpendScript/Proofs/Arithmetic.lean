import Mathlib.Data.List.Basic
import SpendScript.Proofs.NumberBytes
import SpendScript.Proofs.Outcome

/-! # Arithmetic

A numeric opcode reads its operands as numbers, computes with them whatever their size (`Numeric.Means`) and leaves the shortest
item of the result. It does so exactly where the limits accept all operands, and the result takes at most a byte more than they
may (`Numeric.run_iff_accepted`). A result that has grown beyond the limit is refused by the next numeric opcode. -/

namespace SpendScript

/-! ### Operands -/

/-- The limits let an item pass as a number: it is short enough and, under the flag, the shortest one of its value. -/
structure Limits.Accepts (l : Limits) (item : Bytes) : Prop where
  length_le : (item.length : Int) ≤ l.numberLength
  minimal : l.flags.has .requireMinimalPush = true → Number.isMinimal item = true

theorem Limits.number_eq_ok_iff {l : Limits} {item : Bytes} {n : Int} :
    l.number item = .ok n ↔ l.Accepts item ∧ Number.decode item = n := by
  rw [Machine.number_eq_ok]
  constructor
  · rintro ⟨hlength, hminimal, rfl⟩
    exact ⟨⟨hlength, hminimal⟩, rfl⟩
  · rintro ⟨⟨hlength, hminimal⟩, rfl⟩
    exact ⟨hlength, hminimal, rfl⟩

theorem Limits.mapM_number_eq_ok {l : Limits} {items : List Bytes} {values : List Int} :
    items.mapM l.number = .ok values ↔ (∀ item ∈ items, l.Accepts item) ∧ items.map Number.decode = values := by
  induction items generalizing values with
  | nil => simp [pure, Except.pure]
  | cons item items ih =>
    simp only [mapM_cons_eq_ok, number_eq_ok_iff, ih, List.forall_mem_cons, List.map_cons]
    constructor
    · rintro ⟨_, ⟨haccepts, rfl⟩, _, ⟨hall, rfl⟩, rfl⟩
      exact ⟨⟨haccepts, hall⟩, rfl⟩
    · rintro ⟨⟨haccepts, hall⟩, rfl⟩
      exact ⟨_, ⟨haccepts, rfl⟩, _, ⟨hall, rfl⟩, rfl⟩

/-- A result of four bytes is accepted, if numbers may have so many, exactly up to the greatest one. -/
theorem Limits.accepts_encode_iff {l : Limits} (h : l.numberLength = 4) (n : Int) :
    l.Accepts (Number.encode n) ↔ n.natAbs ≤ 0x7fffffff := by
  have hwidth : Number.width n ≤ 4 ↔ n.natAbs ≤ 0x7fffffff := by
    rw [Number.width_le_four_iff, Number.int32Max]
    omega
  rw [← hwidth]
  constructor
  · rintro ⟨hlength, -⟩
    rw [h, Number.length_encode] at hlength
    exact Int.ofNat_le.mp hlength
  · intro hle
    refine ⟨?_, fun _ => Number.isMinimal_encode n⟩
    rw [h, Number.length_encode]
    exact Int.ofNat_le.mpr hle

/-- A bit more than the magnitude of an item fits into another byte. -/
theorem Number.two_mul_signBit_lt (size : Nat) : 2 * signBit size + 1 < signBit (size + 1) := by
  rcases Nat.eq_zero_or_pos size with rfl | hpos
  · decide
  · have hstep := signBit_step hpos
    have htop := two_mul_signBit hpos
    have : 0 < 256 ^ size := Nat.pow_pos (by decide)
    omega

namespace Numeric

/-! ### Opcodes -/

def opcode : Numeric → Opcode
  | add1 => 0x8b
  | sub1 => 0x8c
  | negate => 0x8f
  | abs => 0x90
  | not => 0x91
  | nonZero => 0x92
  | add => 0x93
  | sub => 0x94
  | boolAnd => 0x9a
  | boolOr => 0x9b
  | equal => 0x9c
  | notEqual => 0x9e
  | less => 0x9f
  | greater => 0xa0
  | lessEqual => 0xa1
  | greaterEqual => 0xa2
  | min => 0xa3
  | max => 0xa4
  | within => 0xa5

theorem ofOpcode_opcode (f : Numeric) : Action.ofOpcode f.opcode = .numeric f := by cases f <;> rfl

example : [add1, sub1, negate, abs, not, nonZero, add, sub, boolAnd, boolOr, equal, notEqual, less, greater, lessEqual,
      greaterEqual, min, max, within].map (·.opcode.label) =
    ["OP_1ADD", "OP_1SUB", "OP_NEGATE", "OP_ABS", "OP_NOT", "OP_0NOTEQUAL", "OP_ADD", "OP_SUB", "OP_BOOLAND", "OP_BOOLOR",
      "OP_NUMEQUAL", "OP_NUMNOTEQUAL", "OP_LESSTHAN", "OP_GREATERTHAN", "OP_LESSTHANOREQUAL", "OP_GREATERTHANOREQUAL", "OP_MIN",
      "OP_MAX", "OP_WITHIN"] := by
  decide

/-- What an opcode does where it is executed. -/
def run (env : Env) (f : Numeric) (m : Machine) : Except Halt Machine := m.perform env f.opcode (.ofOpcode f.opcode)

theorem run_eq (env : Env) (f : Numeric) (m : Machine) : f.run env m = m.numeric env f := by
  unfold run
  rw [ofOpcode_opcode]
  rfl

theorem arity_pos (f : Numeric) : 0 < f.arity := by cases f <;> decide

/-! ### Meanings -/

/-- A number tells whether something holds: it is one if so and zero if not. -/
def Tells (p : Prop) (r : Int) : Prop := (p ∧ r = 1) ∨ (¬p ∧ r = 0)

theorem Tells.unique {p : Prop} {r r' : Int} (h : Tells p r) (h' : Tells p r') : r = r' := by
  rcases h with ⟨hp, rfl⟩ | ⟨hp, rfl⟩ <;> rcases h' with ⟨hp', rfl⟩ | ⟨hp', rfl⟩
  · rfl
  · exact absurd hp hp'
  · exact absurd hp' hp
  · rfl

theorem Tells.natAbs_le {p : Prop} {r : Int} (h : Tells p r) : r.natAbs ≤ 1 := by
  rcases h with ⟨-, rfl⟩ | ⟨-, rfl⟩ <;> decide

theorem tells_ofBool {p : Prop} {b : Bool} (h : b = true ↔ p) : Tells p (ofBool b) := by
  cases b with
  | true => exact .inl ⟨h.mp rfl, rfl⟩
  | false => exact .inr ⟨fun hp => Bool.false_ne_true (h.mpr hp), rfl⟩

/-- What an operation that tells asks about its operands, the deepest first. -/
inductive Asks : Numeric → List Int → Prop → Prop
  | not {a : Int} : Asks not [a] (a = 0)
  | nonZero {a : Int} : Asks nonZero [a] (a ≠ 0)
  | boolAnd {a b : Int} : Asks boolAnd [a, b] (a ≠ 0 ∧ b ≠ 0)
  | boolOr {a b : Int} : Asks boolOr [a, b] (a ≠ 0 ∨ b ≠ 0)
  | equal {a b : Int} : Asks equal [a, b] (a = b)
  | notEqual {a b : Int} : Asks notEqual [a, b] (a ≠ b)
  | less {a b : Int} : Asks less [a, b] (a < b)
  | greater {a b : Int} : Asks greater [a, b] (a > b)
  | lessEqual {a b : Int} : Asks lessEqual [a, b] (a ≤ b)
  | greaterEqual {a b : Int} : Asks greaterEqual [a, b] (a ≥ b)
  | within {x low high : Int} : Asks within [x, low, high] (low ≤ x ∧ x < high)

/-- The result of an operation on numbers, the deepest operand first. -/
inductive Means : Numeric → List Int → Int → Prop
  | add1 {a : Int} : Means add1 [a] (a + 1)
  | sub1 {a : Int} : Means sub1 [a] (a - 1)
  | negate {a : Int} : Means negate [a] (-a)
  | absSelf {a : Int} (h : 0 ≤ a) : Means abs [a] a
  | absNeg {a : Int} (h : a ≤ 0) : Means abs [a] (-a)
  | add {a b : Int} : Means add [a, b] (a + b)
  | sub {a b : Int} : Means sub [a, b] (a - b)
  | minFirst {a b : Int} (h : a ≤ b) : Means min [a, b] a
  | minSecond {a b : Int} (h : b ≤ a) : Means min [a, b] b
  | maxFirst {a b : Int} (h : b ≤ a) : Means max [a, b] a
  | maxSecond {a b : Int} (h : a ≤ b) : Means max [a, b] b
  | tells {f : Numeric} {values : List Int} {p : Prop} {r : Int} (h : Asks f values p) (hr : Tells p r) : Means f values r

section
variable {f : Numeric} {values : List Int} {r : Int}

theorem Asks.unique {p p' : Prop} (h : Asks f values p) (h' : Asks f values p') : p = p' := by
  cases h <;> cases h' <;> rfl

theorem Means.unique {r' : Int} (h : Means f values r) (h' : Means f values r') : r = r' := by
  cases h' with
  | tells h' hr' =>
    cases h with
    | tells h hr =>
      obtain rfl := h.unique h'
      exact hr.unique hr'
    | _ => cases h'
  | _ =>
    cases h with
    | tells h _ => cases h
    | _ => omega

/-- No result is beyond the sum of two operands, or of an operand and one. -/
theorem Means.natAbs_le (h : Means f values r) {bound : Nat} (hvalues : ∀ v ∈ values, v.natAbs ≤ bound) :
    r.natAbs ≤ 2 * bound + 1 := by
  cases h with
  | tells _ hr =>
    have := hr.natAbs_le
    omega
  | _ =>
    simp only [List.forall_mem_cons] at hvalues
    omega

theorem means_ofBool {p : Prop} {b : Bool} (h : Asks f values p) (hb : b = true ↔ p) : Means f values (ofBool b) :=
  .tells h (tells_ofBool hb)

theorem apply_means (h : values.length = f.arity) : ∃ r, f.apply values = .ok r ∧ Means f values r := by
  cases f with
  | add1 | sub1 | negate =>
    obtain ⟨a, rfl⟩ := List.length_eq_one_iff.mp h
    exact ⟨_, rfl, by constructor⟩
  | abs =>
    obtain ⟨a, rfl⟩ := List.length_eq_one_iff.mp h
    refine ⟨_, rfl, ?_⟩
    rcases Int.le_total 0 a with hsign | hsign
    · rw [Int.natAbs_of_nonneg hsign]
      exact .absSelf hsign
    · rw [Int.ofNat_natAbs_of_nonpos hsign]
      exact .absNeg hsign
  | not | nonZero =>
    obtain ⟨a, rfl⟩ := List.length_eq_one_iff.mp h
    exact ⟨_, rfl, means_ofBool (by constructor) (by simp)⟩
  | add | sub =>
    obtain ⟨a, b, rfl⟩ := List.length_eq_two.mp h
    exact ⟨_, rfl, by constructor⟩
  | boolAnd | boolOr | equal | notEqual | less | greater | lessEqual | greaterEqual =>
    obtain ⟨a, b, rfl⟩ := List.length_eq_two.mp h
    exact ⟨_, rfl, means_ofBool (by constructor) (by simp)⟩
  | min =>
    obtain ⟨a, b, rfl⟩ := List.length_eq_two.mp h
    refine ⟨_, rfl, ?_⟩
    split
    · exact .minSecond (by omega)
    · exact .minFirst (by omega)
  | max =>
    obtain ⟨a, b, rfl⟩ := List.length_eq_two.mp h
    refine ⟨_, rfl, ?_⟩
    split
    · exact .maxSecond (by omega)
    · exact .maxFirst (by omega)
  | within =>
    obtain ⟨x, low, high, rfl⟩ := List.length_eq_three.mp h
    exact ⟨_, rfl, means_ofBool .within (by simp)⟩

theorem apply_eq_ok_iff (h : values.length = f.arity) : f.apply values = .ok r ↔ Means f values r := by
  obtain ⟨r', happly, hmeans⟩ := apply_means h
  rw [happly, Except.ok.injEq]
  exact ⟨fun heq => heq ▸ hmeans, hmeans.unique⟩

/-- A result takes at most a byte more than the operands. -/
theorem Means.width_le (h : Means f values r) {size : Nat} (hvalues : ∀ v ∈ values, Number.width v ≤ size) :
    Number.width r ≤ size + 1 := by
  have hbound : r.natAbs ≤ 2 * Number.signBit size + 1 := by
    refine h.natAbs_le fun v hv => ?_
    rcases Number.width_le_iff.mp (hvalues v hv) with rfl | hlt
    · exact Nat.zero_le _
    · exact Nat.le_of_lt hlt
  exact Number.width_le_iff.mpr (Or.inr (Nat.lt_of_le_of_lt hbound (Number.two_mul_signBit_lt size)))

theorem Means.length_encode_le {items : List Bytes} (h : Means f (items.map Number.decode) r) (size : Nat)
    (hitems : ∀ item ∈ items, item.length ≤ size) : (Number.encode r).length ≤ size + 1 := by
  rw [Number.length_encode]
  refine h.width_le (List.forall_mem_map.mpr fun item hitem => ?_)
  exact Nat.le_trans (Number.width_decode_le item) (hitems item hitem)

end

/-! ### Runs -/

section
variable {env : Env} {f : Numeric} {operands base : List Bytes} {m m' : Machine}
  (hstack : m.stack = operands.reverse ++ base) (hcount : operands.length = f.arity)
include hstack hcount

theorem run_eq_ok_iff : f.run env m = .ok m' ↔ (∀ item ∈ operands, env.limits.Accepts item) ∧
    ∃ r, Means f (operands.map Number.decode) r ∧ m' = { m with stack := Number.encode r :: base } := by
  have htake : (m.stack.take f.arity).reverse = operands := by
    rw [hstack, ← hcount, List.take_left' List.length_reverse, List.reverse_reverse]
  have hdrop : m.stack.drop f.arity = base := by rw [hstack, ← hcount, List.drop_left' List.length_reverse]
  have hdepth : f.arity ≤ m.stack.length := by
    rw [hstack, List.length_append, List.length_reverse, hcount]
    exact Nat.le_add_right _ _
  have hvalues : (operands.map Number.decode).length = f.arity := by rw [List.length_map, hcount]
  rw [run_eq]
  unfold Machine.numeric
  simp only [bind_eq_ok, Machine.requireDepth_eq_ok, Machine.attempt_eq_ok, Machine.replace_eq_ok, htake, hdrop,
    Limits.mapM_number_eq_ok, Number.item_eq, Except.ok.injEq]
  constructor
  · rintro ⟨_, -, _, ⟨haccepts, rfl⟩, _, ⟨r, happly, rfl⟩, -, rfl⟩
    exact ⟨haccepts, r, (apply_eq_ok_iff hvalues).mp happly, rfl⟩
  · rintro ⟨haccepts, r, hmeans, rfl⟩
    exact ⟨(), Int.ofNat_le.mpr hdepth, _, ⟨haccepts, rfl⟩, _, ⟨r, (apply_eq_ok_iff hvalues).mpr hmeans, rfl⟩, hdepth, rfl⟩

theorem exists_run_iff_accepts : (∃ m', f.run env m = .ok m') ↔ ∀ item ∈ operands, env.limits.Accepts item := by
  simp only [run_eq_ok_iff hstack hcount]
  constructor
  · rintro ⟨_, haccepts, -⟩
    exact haccepts
  · intro haccepts
    obtain ⟨r, -, hmeans⟩ := apply_means ((List.length_map Number.decode).trans hcount)
    exact ⟨_, haccepts, r, hmeans, rfl⟩

end

/-- What an opcode with an item among its operands makes of it where numbers have four bytes and it accepts the others. -/
theorem exists_run_iff_natAbs {env : Env} {g : Numeric} {before after below : List Bytes} {r : Int} {m : Machine}
    (hfour : env.limits.numberLength = 4)
    (hstack : m.stack = (before ++ Number.encode r :: after).reverse ++ below)
    (hcount : (before ++ Number.encode r :: after).length = g.arity)
    (hothers : ∀ item ∈ before ++ after, env.limits.Accepts item) :
    (∃ m', g.run env m = .ok m') ↔ r.natAbs ≤ 0x7fffffff := by
  have hmem : ∀ item, item ∈ before ++ Number.encode r :: after ↔ item = Number.encode r ∨ item ∈ before ++ after := by
    intro item
    simp only [List.mem_append, List.mem_cons]
    exact or_left_comm
  rw [exists_run_iff_accepts hstack hcount, ← Limits.accepts_encode_iff hfour]
  simp only [hmem]
  constructor
  · exact fun h => h _ (.inl rfl)
  · rintro h item (rfl | hother)
    · exact h
    · exact hothers item hother

/-- Where operands stand on any items, a numeric opcode succeeds exactly if the limits accept each of them as a number. The
    result stands in their place, as the shortest item of what the operation means for their numbers, of at most a byte more
    than numbers may have. Where they may have four, any numeric opcode that finds the result among its operands accepts it
    exactly up to the greatest number of four bytes. -/
theorem run_iff_accepted (env : Env) (f : Numeric) (operands base : List Bytes) (m : Machine)
    (hstack : m.stack = operands.reverse ++ base) (hcount : operands.length = f.arity) :
    ∃ r, Means f (operands.map Number.decode) r ∧ (∀ r', Means f (operands.map Number.decode) r' → r' = r) ∧
      ((∃ m', f.run env m = .ok m') ↔ ∀ item ∈ operands, env.limits.Accepts item) ∧
      ∀ m', f.run env m = .ok m' → m' = { m with stack := Number.encode r :: base } ∧
        ((Number.encode r).length : Int) ≤ env.limits.numberLength + 1 ∧
        (env.limits.numberLength = 4 → ∀ (g : Numeric) (before after below : List Bytes) (later : Machine),
          later.stack = (before ++ Number.encode r :: after).reverse ++ below →
          (before ++ Number.encode r :: after).length = g.arity → (∀ item ∈ before ++ after, env.limits.Accepts item) →
          ((∃ m'', g.run env later = .ok m'') ↔ r.natAbs ≤ 0x7fffffff)) := by
  obtain ⟨r, -, hmeans⟩ := apply_means ((List.length_map Number.decode).trans hcount)
  refine ⟨r, hmeans, fun r' h => h.unique hmeans, exists_run_iff_accepts hstack hcount, fun m' hrun => ?_⟩
  obtain ⟨haccepts, r', hmeans', rfl⟩ := (run_eq_ok_iff hstack hcount).mp hrun
  obtain rfl := hmeans.unique hmeans'
  -- an operation has an operand, so a limit that accepts it is not negative
  have hlimit : 0 ≤ env.limits.numberLength := by
    obtain ⟨item, hitem⟩ := List.exists_mem_of_length_pos (hcount ▸ f.arity_pos)
    exact Int.le_trans (Int.natCast_nonneg _) (haccepts item hitem).length_le
  have hgrown : ((Number.encode r).length : Int) ≤ env.limits.numberLength + 1 := by
    have hle := hmeans.length_encode_le env.limits.numberLength.toNat fun item hitem => by
      have := (haccepts item hitem).length_le
      omega
    omega
  refine ⟨rfl, hgrown, fun hfour g before after below later hlater hcount' hothers => ?_⟩
  exact exists_run_iff_natAbs hfour hlater hcount' hothers

/-- One, with padding, and the greatest number of four bytes make one of five, which cannot be negated. -/
theorem run_iff_accepted_overflow :
    add.run ⟨.default, none, .standard⟩ { stack := [[0x01, 0x00], [0xff, 0xff, 0xff, 0x7f], [9]] } =
      .ok { stack := [[0x00, 0x00, 0x00, 0x80, 0x00], [9]] } ∧
    ¬∃ m', negate.run ⟨.default, none, .standard⟩ { stack := [[0x00, 0x00, 0x00, 0x80, 0x00], [9]] } = .ok m' := by
  obtain ⟨r, -, hunique, hruns, hresult⟩ := run_iff_accepted ⟨.default, none, .standard⟩ add
    [[0xff, 0xff, 0xff, 0x7f], [0x01, 0x00]] [[9]] { stack := [[0x01, 0x00], [0xff, 0xff, 0xff, 0x7f], [9]] } rfl rfl
  obtain rfl : 0x80000000 = r := hunique _ (@Means.add 0x7fffffff 1)
  have haccepts : ∀ item ∈ [[0xff, 0xff, 0xff, 0x7f], [0x01, 0x00]], Limits.default.Accepts item := by
    simp only [List.forall_mem_cons]
    exact ⟨⟨by decide, by decide⟩, ⟨by decide, by decide⟩, nofun⟩
  obtain ⟨m', hrun⟩ := hruns.mpr haccepts
  obtain ⟨rfl, -, hlater⟩ := hresult m' hrun
  refine ⟨hrun, ?_⟩
  rw [hlater rfl negate [] [] [[9]] { stack := [[0x00, 0x00, 0x00, 0x80, 0x00], [9]] } rfl rfl nofun]
  decide

end Numeric

end SpendScript
