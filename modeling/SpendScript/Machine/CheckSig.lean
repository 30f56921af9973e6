import SpendScript.Machine.State

/-! # Signature checks

A signature is checked against the running script from its last executed `OP_CODESEPARATOR` on, less the
signatures themselves. A multiple check tries keys and signatures from the last to the first and gives up once
fewer keys are left than signatures. -/

namespace SpendScript.Machine

/-- Halts on a false result, and removes a true one. -/
def popVerify (v : Verification) (m : Machine) : Except Halt Machine := do
  let result ← m.peek 0
  if Number.isTrue result then m.pop 1 else m.fail (.failed v)

/-- Checks one signature against one key. Only canonical signatures are put to the check. -/
def checkOne (env : Env) (strict : Flags) (code sig key : Bytes) (m : Machine) : Except Halt (Bool × Machine) := do
  let parsed ← m.attempt (env.limits.checkSignature sig strict)
  m.attempt (env.limits.checkPublicKey key)
  match parsed, env.sigCheck with
  | none, _ => return (false, m)
  | some _, none => m.fail .noSigCheck
  | some txSig, some check =>
    let result := check code key txSig
    return (result, { m with calls := ⟨code, key, txSig, result⟩ :: m.calls })

/-- Checks the signature below the key on top of the stack, and leaves the result. -/
def checkSig (env : Env) (m : Machine) : Except Halt Machine := do
  m.requireDepth 2
  let key ← m.peek 0
  let sig ← m.peek 1
  let code ← m.attempt (Limits.cleanCode sig m.code)
  let (good, m) ← checkOne env (.single .requireStrictDer) code sig key m
  m.replace 2 (Number.ofBool good)

/-- Whether all signatures match keys, in order. Each key is tried once. -/
def matchAll (env : Env) (code : Bytes) : (sigs keys : List Bytes) → Machine → Except Halt (Bool × Machine)
  | [], _, m => .ok (true, m)
  | _ :: _, [], m => .ok (false, m)
  | sig :: sigs, key :: keys, m =>
    if keys.length < sigs.length then .ok (false, m)
    else do
      let (good, m) ← checkOne env (.single .requireStrictDerMultisig) code sig key m
      matchAll env code (if good then sigs else sig :: sigs) keys m

/-- Checks `m` signatures against `n` keys. From the top the stack holds `n`, the keys, `m`, the signatures and
    one more item; the result takes their place. -/
def checkMultiSig (env : Env) (m : Machine) : Except Halt Machine := do
  m.requireDepth 1
  let keyCount ← m.attempt (env.limits.number (← m.peek 0))
  m.attempt (env.limits.checkPublicKeyCount keyCount)
  let m ← m.bump env keyCount
  m.requireDepth (keyCount + 2)
  let keyNum := keyCount.toNat
  let sigCount ← m.attempt (env.limits.number (← m.peek (keyNum + 1)))
  if ¬ (0 ≤ sigCount ∧ sigCount ≤ keyCount) then
    m.fail (.signatureCount sigCount keyCount)
  else
    let sigNum := sigCount.toNat
    m.requireDepth (keyCount + sigCount + 3)
    let keys := (m.stack.drop 1).take keyNum
    let sigs := (m.stack.drop (keyNum + 2)).take sigNum
    let code ← m.attempt (sigs.reverse.foldlM (fun code sig => Limits.cleanCode sig code) m.code)
    let (good, m) ← matchAll env code sigs keys m
    let m ← m.pop (keyNum + sigNum + 2)
    m.attempt (env.limits.checkNullDummy (← m.peek 0))
    m.replace 1 (Number.ofBool good)

end SpendScript.Machine
