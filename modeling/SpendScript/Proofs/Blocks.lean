import SpendScript.Machine.Run

/-! # The blocks of a script

The operations of a script form a tree: a block goes from `OP_IF` or `OP_NOTIF` to its `OP_ENDIF`, and the
`OP_ELSE`s between them that belong to no inner block part it into segments. This file holds the trees, their
evaluation, which goes from the outside in and knows no open conditions, and that balanced operations are those of
a tree. -/

namespace SpendScript

/-! ### Marks -/

/-- The part that an operation plays in the blocks of a script. -/
inductive Mark
  | opens (negated : Bool)
  | separates
  | closes
  deriving DecidableEq, Repr

/-- The operation that is a mark. -/
def Mark.operation : Mark → Operation
  | opens negated => .code (if negated then Opcode.opNotIf else Opcode.opIf)
  | separates => .code Opcode.opElse
  | closes => .code Opcode.opEndIf

def Mark.all : List Mark := [opens false, opens true, separates, closes]

/-- The mark that an operation is, if it is one. -/
def Operation.mark? (o : Operation) : Option Mark := Mark.all.find? (·.operation == o)

theorem Mark.mem_all (k : Mark) : k ∈ all := by
  cases k with
  | opens negated => cases negated <;> decide
  | separates | closes => decide

theorem Operation.eq_of_mark? {o : Operation} {k : Mark} (h : o.mark? = some k) : o = k.operation := by
  have hk := List.find?_some (p := fun k : Mark => k.operation == o) h
  exact (eq_of_beq hk).symm

theorem Operation.ne_of_mark? {o : Operation} (h : o.mark? = none) (k : Mark) : o ≠ k.operation := by
  rintro rfl
  exact List.find?_eq_none.mp h k k.mem_all (beq_self_eq_true _)

/-- How many blocks are open after some operations, if no block is closed that is not open. -/
def openAfter : List Operation → (depth : Nat) → Option Nat
  | [], depth => some depth
  | o :: ops, depth =>
    match o.mark?, depth with
    | some (.opens _), depth => openAfter ops (depth + 1)
    | some .closes, depth + 1 => openAfter ops depth
    | some .closes, 0 => none
    | some .separates, depth | none, depth => openAfter ops depth

/-- Every `OP_ENDIF` closes a block, and every block is closed. -/
def Balanced (ops : List Operation) : Prop := openAfter ops 0 = some 0

instance (ops : List Operation) : Decidable (Balanced ops) := inferInstanceAs (Decidable (_ = _))

/-! ### Trees -/

mutual

/-- Operations one after another, and blocks among them. -/
inductive Block
  | nil
  | op (o : Operation) (plain : o.mark? = none) (rest : Block)
  | cond (negated : Bool) (segments : Segments) (rest : Block)

/-- What stands in a block: one segment, and one more after each `OP_ELSE`. -/
inductive Segments
  | last (b : Block)
  | more (b : Block) (rest : Segments)

end

mutual

def Block.ops : Block → List Operation
  | .nil => []
  | .op o _ rest => o :: rest.ops
  | .cond negated segments rest =>
    Mark.operation (.opens negated) :: (segments.ops ++ Mark.closes.operation :: rest.ops)

def Segments.ops : Segments → List Operation
  | .last b => b.ops
  | .more b rest => b.ops ++ Mark.separates.operation :: rest.ops

end

/-! ### Evaluation -/

namespace Machine

/-- The checks that an operation is subject to wherever it stands. -/
def vet (env : Env) (m : Machine) (o : Operation) : Except Halt Machine := do
  let m := m.advance o
  checkItem env o m
  let m ← count env o m
  if o.opcode.isDisabled then m.fail (.disabledOpcode o.opcode) else .ok m

/-- Passes over an operation in a segment that is not executed. -/
def passOver (env : Env) (m : Machine) (o : Operation) : Except Halt Machine := do
  let m ← m.vet env o
  if o.opcode = Opcode.opVerIf ∨ o.opcode = Opcode.opVerNotIf then m.fail (.invalidOpcode o.opcode) else .ok m

/-- Enters a block: whether the top item, which is removed, is true. -/
def test (env : Env) (negated : Bool) (m : Machine) : Except Halt (Bool × Machine) := do
  let m ← m.vet env (Mark.operation (.opens negated))
  m.requireDepth 1
  let item ← m.peek 0
  return (Number.isTrue item, ← m.pop 1)

end Machine

/-- Passes over all operations of a segment, at any depth. -/
def Block.pass (env : Env) (b : Block) (m : Machine) : Except Halt Machine := b.ops.foldlM (Machine.passOver env) m

mutual

def Block.run (env : Env) : Block → Machine → Except Halt Machine
  | .nil, m => .ok m
  | .op o _ rest, m => do
    let m ← m.vet env o
    rest.run env (← m.execute1 env o)
  | .cond negated segments rest, m => do
    let (value, m) ← m.test env negated
    let m ← segments.run env (value != negated) 0 m
    rest.run env (← m.vet env Mark.closes.operation)

/-- Evaluates segments from an index on: those of even index are executed if `taken`, those of odd index
    otherwise. -/
def Segments.run (env : Env) (taken : Bool) : (index : Nat) → Segments → Machine → Except Halt Machine
  | index, .last b, m => if (index % 2 == 0) == taken then b.run env m else b.pass env m
  | index, .more b rest, m =>
    (if (index % 2 == 0) == taken then b.run env m else b.pass env m) >>= fun m => do
      rest.run env taken (index + 1) (← m.vet env Mark.separates.operation)

end

/-- Evaluates the segments of a script. No block is around them, so that an `OP_ELSE` between them fails. -/
def Segments.runTop (env : Env) : Segments → Machine → Except Halt Machine
  | .last b, m => b.run env m
  | .more b _, m => do
    let m ← b.run env m
    let m ← m.vet env Mark.separates.operation
    m.fail .unexpectedElse

/-- Evaluates a script by its tree. -/
def Segments.runScript (env : Env) (t : Segments) (script : Bytes) (m : Machine) : Except Halt Machine :=
  if env.limits.scriptSize < script.length then m.fail (.scriptSize script.length env.limits.scriptSize)
  else t.runTop env (m.begin script)

/-! ### The tree of balanced operations -/

namespace Segments

/-- Changes the first segment. -/
def mapFirst (f : Block → Block) : Segments → Segments
  | last b => last (f b)
  | more b rest => more (f b) rest

theorem ops_mapFirst {f : Block → Block} {front : List Operation} (h : ∀ b, (f b).ops = front ++ b.ops)
    (t : Segments) : (t.mapFirst f).ops = front ++ t.ops := by
  cases t with
  | last b => exact h b
  | more b rest =>
    show (f b).ops ++ _ = front ++ (b.ops ++ _)
    rw [h, List.append_assoc]

/-- The operations of blocks that are open one inside the other, from the innermost on, each up to its end. -/
def opsOfOpen : Segments → List Segments → List Operation
  | t, [] => t.ops
  | t, outer :: rest => t.ops ++ Mark.closes.operation :: opsOfOpen outer rest

theorem opsOfOpen_mapFirst {f : Block → Block} {front : List Operation} (h : ∀ b, (f b).ops = front ++ b.ops)
    (t : Segments) (outer : List Segments) : opsOfOpen (t.mapFirst f) outer = front ++ opsOfOpen t outer := by
  cases outer with
  | nil => exact ops_mapFirst h t
  | cons u outer =>
    show (t.mapFirst f).ops ++ _ = front ++ (t.ops ++ _)
    rw [ops_mapFirst h, List.append_assoc]

/-- What is left of a balanced script is the rest of each open block. -/
theorem exists_opsOfOpen {ops : List Operation} {depth : Nat} (h : openAfter ops depth = some 0) :
    ∃ t outer, outer.length = depth ∧ opsOfOpen t outer = ops := by
  induction ops generalizing depth with
  | nil =>
    cases h
    exact ⟨.last .nil, [], rfl, rfl⟩
  | cons o ops ih =>
    unfold openAfter at h
    split at h
    · rename_i negated hk
      obtain ⟨t, outer, hl, rfl⟩ := ih h
      obtain ⟨u, outer, rfl⟩ := List.exists_cons_of_length_eq_add_one hl
      rw [Operation.eq_of_mark? hk]
      refine ⟨u.mapFirst (.cond negated t), outer, Nat.succ.inj hl, ?_⟩
      have hcond : ∀ b, (Block.cond negated t b).ops =
          (Mark.operation (.opens negated) :: (t.ops ++ [Mark.closes.operation])) ++ b.ops := by
        intro b
        simp [Block.ops]
      rw [opsOfOpen_mapFirst hcond]
      simp [opsOfOpen]
    · rename_i hk
      obtain ⟨t, outer, hl, rfl⟩ := ih h
      rw [Operation.eq_of_mark? hk]
      exact ⟨.last .nil, t :: outer, congrArg (· + 1) hl, rfl⟩
    · cases h
    · rename_i hk
      obtain ⟨t, outer, hl, rfl⟩ := ih h
      rw [Operation.eq_of_mark? hk]
      refine ⟨.more .nil t, outer, hl, ?_⟩
      cases outer <;> rfl
    · rename_i hk
      obtain ⟨t, outer, hl, rfl⟩ := ih h
      have hop : ∀ b, (Block.op o hk b).ops = [o] ++ b.ops := fun b => rfl
      exact ⟨t.mapFirst (.op o hk), outer, hl, opsOfOpen_mapFirst hop t outer⟩

theorem exists_ops_eq {ops : List Operation} (h : Balanced ops) : ∃ t : Segments, t.ops = ops := by
  obtain ⟨t, outer, hl, ht⟩ := exists_opsOfOpen h
  cases List.length_eq_zero_iff.mp hl
  exact ⟨t, ht⟩

end Segments

end SpendScript
