import SpendScript.Fault

/-! # Families of stacks

A pool holds numbered stacks of items. A stack and the stacks made as its children are a family, which shares a
limit on the number of its items; a copy starts a family of its own. Items are listed from the bottom up, and
indexes count from the bottom, or from the top if they are negative. What is done to a pool gives a value or a fault;
either way it leaves the pool that it has come to. -/

namespace SpendScript

/-- A stack: its items from the bottom up, and the number of the stack that started its family. -/
structure FamilyStack where
  items : List Bytes
  family : Nat
  deriving DecidableEq, Repr

/-- Numbered stacks under one limit. -/
structure Pool where
  limit : Int
  members : List FamilyStack
  deriving DecidableEq, Repr

namespace Pool

/-- A pool of one empty stack. -/
def single (limit : Int) : Pool := ⟨limit, [⟨[], 0⟩]⟩

/-- The stack of a number. -/
def stack (p : Pool) (n : Nat) : FamilyStack := p.members.getD n ⟨[], n⟩

def items (p : Pool) (n : Nat) : List Bytes := (p.stack n).items

/-- The pool with the items of a stack replaced. -/
def withItems (p : Pool) (n : Nat) (items : List Bytes) : Pool :=
  { p with members := p.members.modify n fun s => { s with items } }

/-- How many items the family of a stack holds. -/
def combinedSize (p : Pool) (n : Nat) : Nat :=
  ((p.members.filter (·.family == (p.stack n).family)).flatMap (·.items)).length

/-- What is done to a pool. A change that fails keeps what it has done so far. -/
abbrev Change := EStateM Fault Pool

/-! ### Checks -/

/-- Fails unless the family of a stack has room for more items. -/
def requireRoom (n count : Nat) : Change Unit := fun p =>
  if p.limit < p.combinedSize n + count then .error (Fault.stackSize p.limit).reported p else .ok () p

/-- The position of an index into a list of some length. -/
def position? (length : Nat) (index : Int) : Option Nat :=
  let i := if index < 0 then index + length else index
  if 0 ≤ i ∧ i < length then some i.toNat else none

/-- The position between items that an index names; one beyond an end names that end. -/
def clamp (length : Nat) (index : Int) : Nat :=
  let i := if index < 0 then index + length else index
  min i.toNat length

/-- An index must fit in 64 bits to name a place. -/
def checkIndex (index : Int) : Change Unit := fun p =>
  if -2 ^ 63 ≤ index ∧ index < 2 ^ 63 then .ok () p else .error .intRange p

/-- The position of the item at an index, which must be there. -/
def place (n : Nat) (index : Int) : Change Nat := fun p =>
  match position? (p.items n).length index with
  | some i => .ok i p
  | none => .error .indexRange p

/-- The item at a position. -/
def itemAt (n i : Nat) : Change Bytes := fun p => .ok ((p.items n).getD i []) p

/-! ### Operations -/

/-- Changes the items of a stack. -/
def update (n : Nat) (f : List Bytes → List Bytes) : Change Unit := fun p => .ok () (p.withItems n (f (p.items n)))

/-- Puts items on top of a stack: all of them, or none if there is no room. -/
def extend (n : Nat) (items : List Bytes) : Change Unit := do
  requireRoom n items.length
  update n (· ++ items)

def append (n : Nat) (item : Bytes) : Change Unit := extend n [item]

/-- Puts an item before the one at an index. -/
def insert (n : Nat) (index : Int) (item : Bytes) : Change Unit := do
  requireRoom n 1
  checkIndex index
  update n fun items => items.insertIdx (clamp items.length index) item

/-- Removes the item at an index and gives it. -/
def pop (n : Nat) (index : Int) : Change Bytes := do
  checkIndex index
  let i ← place n index
  let item ← itemAt n i
  update n (·.eraseIdx i)
  return item

def clear (n : Nat) : Change Unit := update n fun _ => []

def get (n : Nat) (index : Int) : Change Bytes := do
  let i ← place n index
  itemAt n i

/-- The items from one place to another; a missing place is an end of the stack. -/
def slice (p : Pool) (n : Nat) (start stop : Option Int) : List Bytes :=
  let length := (p.items n).length
  let first := (start.map (clamp length)).getD 0
  let last := (stop.map (clamp length)).getD length
  ((p.items n).take last).drop first

/-- Replaces the item at an index. -/
def set (n : Nat) (index : Int) (item : Bytes) : Change Unit := do
  let i ← place n index
  update n (·.set i item)

/-- Several items cannot be replaced at once, since that could change their number. -/
def setSlice : Change Unit := throw .sliceAssignment

/-- Adds a stack, and gives its number. -/
def add (s : FamilyStack) : Change Nat := fun p => .ok p.members.length { p with members := p.members ++ [s] }

/-- Makes an empty stack in the family of another. It gets the next number. -/
def child (n : Nat) : Change Nat := fun p => add ⟨[], (p.stack n).family⟩ p

/-- Makes a copy of a stack in a family of its own. It gets the next number. -/
def copy (n : Nat) : Change Nat := fun p => add ⟨p.items n, p.members.length⟩ p

/-- Moves the items of a copy to a stack in place of its own. The copy is left empty, also if it is the stack. -/
def restore (n source : Nat) : Change Unit := fun p => .ok () ((p.withItems n (p.items source)).withItems source [])

/-- A stack as it is shown. -/
def shown (p : Pool) (n : Nat) : Text :=
  "LimitedStack([" ++ Text.join ", " ((p.items n).map fun item => Text.quoted (Bytes.hex item)) ++ "])"

end Pool

end SpendScript
