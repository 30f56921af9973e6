import SpendScript.Signature.Der

/-! # The curve secp256k1

Points of the curve `y² = x³ + 7` over the field of `fieldPrime` elements, the forms in which public keys give a
point, and the verification of signatures. Sums of points are computed in Jacobian coordinates: `(x, y, z)` stands
for the point `(x / z², y / z³)`, and `z = 0` for the point at infinity. -/

namespace SpendScript.Curve

/-! ### The field -/

def fieldPrime : Nat := 2 ^ 256 - 2 ^ 32 - 977

/-- The binary digits of a number, the most significant first. -/
def bits (n : Nat) : List Bool := (List.range (Bytes.bitLength n)).reverse.map n.testBit

/-- The power of a number modulo another, by squaring. -/
def powMod (base exponent modulus : Nat) : Nat :=
  (bits exponent).foldl (fun acc bit =>
    let square := acc * acc % modulus
    if bit then square * base % modulus else square) 1

/-- The inverse modulo a prime. -/
def inverse (n prime : Nat) : Nat := powMod n (prime - 2) prime

def mul (a b : Nat) : Nat := a * b % fieldPrime

/-- The difference of two field elements. -/
def sub (a b : Nat) : Nat := (a + fieldPrime - b) % fieldPrime

/-- The right side of the equation of the curve. -/
def cubic (x : Nat) : Nat := (mul (mul x x) x + 7) % fieldPrime

/-! ### Points -/

/-- A point of the plane other than infinity. -/
structure Point where
  x : Nat
  y : Nat
  deriving DecidableEq, Repr

/-- Whether the coordinates are field elements that satisfy the equation of the curve. -/
def Point.isOnCurve (p : Point) : Bool := p.x < fieldPrime && p.y < fieldPrime && mul p.y p.y == cubic p.x

/-- The generator of the group. -/
def generator : Point :=
  ⟨0x79be667ef9dcbbac55a06295ce870b07029bfcdb2dce28d959f2815b16f81798,
   0x483ada7726a3c4655da4fbfc0e1108a8fd17b448a68554199c47d08ffb10d4b8⟩

/-- The point with a given first coordinate and parity of the second, if there is one. The prime leaves
    remainder 3 modulo 4, so a root is a power. -/
def Point.ofX? (x : Nat) (odd : Bool) : Option Point :=
  let root := powMod (cubic x) ((fieldPrime + 1) / 4) fieldPrime
  let y := if (root % 2 == 1) == odd then root else sub 0 root
  let p : Point := ⟨x, y⟩
  if p.isOnCurve && (y % 2 == 1) == odd then some p else none

/-- The point of a public key: a first coordinate after the parity of the second, or both coordinates, where a
    parity may be given too and then has to be right. -/
def Point.ofKey? (key : Bytes) : Option Point :=
  match key with
  | [] => none
  | form :: rest =>
    if rest.length = 32 ∧ (form = 2 ∨ form = 3) then Point.ofX? (Bytes.toNatBE rest) (form == 3)
    else if rest.length = 64 ∧ (form = 4 ∨ form = 6 ∨ form = 7) then
      let p : Point := ⟨Bytes.toNatBE (rest.take 32), Bytes.toNatBE (rest.drop 32)⟩
      if p.isOnCurve && (form == 4 || (p.y % 2 == 1) == (form == 7)) then some p else none
    else none

/-! ### Jacobian coordinates -/

structure Jacobian where
  x : Nat
  y : Nat
  z : Nat
  deriving Repr

namespace Jacobian

def infinity : Jacobian := ⟨1, 1, 0⟩

def ofPoint (p : Point) : Jacobian := ⟨p.x, p.y, 1⟩

def double (p : Jacobian) : Jacobian :=
  if p.z = 0 ∨ p.y = 0 then infinity
  else
    let yy := mul p.y p.y
    let s := mul 4 (mul p.x yy)
    let m := mul 3 (mul p.x p.x)
    let x := sub (mul m m) (mul 2 s)
    ⟨x, sub (mul m (sub s x)) (mul 8 (mul yy yy)), mul 2 (mul p.y p.z)⟩

def add (p q : Jacobian) : Jacobian :=
  if p.z = 0 then q
  else if q.z = 0 then p
  else
    let pzz := mul p.z p.z
    let qzz := mul q.z q.z
    let u := mul p.x qzz
    let s := mul p.y (mul qzz q.z)
    let h := sub (mul q.x pzz) u
    let r := sub (mul q.y (mul pzz p.z)) s
    if h = 0 then if r = 0 then double p else infinity
    else
      let hh := mul h h
      let hhh := mul hh h
      let v := mul u hh
      let x := sub (sub (mul r r) hhh) (mul 2 v)
      ⟨x, sub (mul r (sub v x)) (mul s hhh), mul h (mul p.z q.z)⟩

/-- The first coordinate of the point, unless it is infinity. -/
def x? (p : Jacobian) : Option Nat :=
  if p.z = 0 then none else some (mul p.x (powMod p.z (2 * (fieldPrime - 2)) fieldPrime))

/-- The sum `a * p + b * q`, by doubling and adding along the digits of both factors. -/
def combine (a : Nat) (p : Jacobian) (b : Nat) (q : Jacobian) : Jacobian :=
  let both := add p q
  (List.range (max (Bytes.bitLength a) (Bytes.bitLength b))).reverse.foldl (fun acc i =>
    let acc := double acc
    match a.testBit i, b.testBit i with
    | true, true => add acc both
    | true, false => add acc p
    | false, true => add acc q
    | false, false => acc) infinity

end Jacobian

/-! ### Signatures -/

/-- Whether a signature of a hash is valid for a key. -/
def verify (hash : Bytes) (r s : Nat) (key : Point) : Bool :=
  let n := Der.curveOrder
  if r = 0 ∨ s = 0 ∨ n ≤ r ∨ n ≤ s then false
  else
    let w := inverse s n
    let point := Jacobian.combine (Bytes.toNatBE hash * w % n) (.ofPoint generator) (r * w % n) (.ofPoint key)
    match point.x? with
    | none => false
    | some x => x % n == r

end SpendScript.Curve
