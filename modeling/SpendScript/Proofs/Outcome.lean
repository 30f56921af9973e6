import SpendScript.Machine.Run
import SpendScript.Proofs.Codec

/-! # Outcomes of the parts of a machine

A part of a machine gives a result or halts. A part that succeeds has passed its checks, so it can be read back
from its result; and what holds of the results and of the halts of parts carries over to what they are put
together to (`Ends`). -/

namespace SpendScript

/-! ### Successes -/

theorem bind_eq_ok {ε α β : Type} {x : Except ε α} {f : α → Except ε β} {b : β} :
    (x >>= f) = .ok b ↔ ∃ a, x = .ok a ∧ f a = .ok b := by
  cases x with
  | error e => exact ⟨fun h => (nomatch h), fun ⟨_, h, _⟩ => (nomatch h)⟩
  | ok a => exact ⟨fun h => ⟨a, rfl, h⟩, fun ⟨_, h, h'⟩ => by cases h; exact h'⟩

theorem map_eq_ok {ε α β : Type} {x : Except ε α} {f : α → β} {b : β} : x.map f = .ok b ↔ ∃ a, x = .ok a ∧ f a = b := by
  cases x with
  | error e => exact ⟨fun h => (nomatch h), fun ⟨_, h, _⟩ => (nomatch h)⟩
  | ok a => exact ⟨fun h => ⟨a, rfl, Except.ok.inj h⟩, fun ⟨_, h, h'⟩ => by cases h; exact congrArg Except.ok h'⟩

theorem refuse_eq_ok {ε : Type} {p : Prop} [Decidable p] {e : ε} {u : Unit} :
    (if p then .error e else .ok () : Except ε Unit) = .ok u ↔ ¬p := by
  by_cases hp : p
  · rw [if_pos hp]
    exact ⟨fun h => (nomatch h), fun h => absurd hp h⟩
  · rw [if_neg hp]
    exact ⟨fun _ => hp, fun _ => rfl⟩

theorem mapM_map_eq_ok {ε α β γ : Type} {f : β → Except ε γ} {key : α → β} {g : α → γ} {l : List α}
    (h : ∀ a ∈ l, f (key a) = .ok (g a)) : (l.map key).mapM f = .ok (l.map g) := by
  induction l with
  | nil => rfl
  | cons a l ih =>
    rw [List.map_cons, List.mapM_cons, h a List.mem_cons_self, ih fun a ha => h a (List.mem_cons_of_mem _ ha)]
    rfl

theorem mapM_cons_eq_ok {ε α β : Type} {f : α → Except ε β} {a : α} {l : List α} {bs : List β} :
    (a :: l).mapM f = .ok bs ↔ ∃ b, f a = .ok b ∧ ∃ rest, l.mapM f = .ok rest ∧ b :: rest = bs := by
  simp only [List.mapM_cons, bind_eq_ok, pure, Except.pure, Except.ok.injEq]

theorem exists_mapM_eq_ok {ε α β : Type} {f : α → Except ε β} {l : List α} :
    (∃ bs, l.mapM f = .ok bs) ↔ ∀ a ∈ l, ∃ b, f a = .ok b := by
  induction l with
  | nil => exact ⟨fun _ a ha => (nomatch ha), fun _ => ⟨[], rfl⟩⟩
  | cons a l ih =>
    rw [List.forall_mem_cons, ← ih]
    constructor
    · rintro ⟨bs, h⟩
      obtain ⟨b, hb, rest, hrest, -⟩ := mapM_cons_eq_ok.mp h
      exact ⟨⟨b, hb⟩, rest, hrest⟩
    · rintro ⟨⟨b, hb⟩, rest, hrest⟩
      exact ⟨b :: rest, mapM_cons_eq_ok.mpr ⟨b, hb, rest, hrest, rfl⟩⟩

/-! ### Results and halts -/

/-- A result fulfils `P`, and a failure fulfils `E`. -/
def Ends {ε α : Type} (P : α → Prop) (E : ε → Prop) : Except ε α → Prop
  | .ok a => P a
  | .error e => E e

namespace Ends
variable {ε α β : Type} {P : α → Prop} {Q : β → Prop} {E : ε → Prop}

theorem bind {x : Except ε α} {f : α → Except ε β} (h : Ends P E x) (k : ∀ a, P a → Ends Q E (f a)) :
    Ends Q E (x >>= f) := by
  cases x with
  | error e => exact h
  | ok a => exact k a h

theorem map {x : Except ε α} {f : α → β} (h : Ends P E x) (k : ∀ a, P a → Q (f a)) : Ends Q E (x.map f) := by
  cases x with
  | error e => exact h
  | ok a => exact k a h

theorem mono {P' : α → Prop} {x : Except ε α} (h : Ends P E x) (k : ∀ a, P a → P' a) : Ends P' E x := by
  cases x with
  | error e => exact h
  | ok a => exact k a h

theorem mono_error {E' : ε → Prop} {x : Except ε α} (h : Ends P E x) (k : ∀ e, E e → E' e) : Ends P E' x := by
  cases x with
  | error e => exact k e h
  | ok a => exact h

theorem and {P' : α → Prop} {E' : ε → Prop} {x : Except ε α} (h : Ends P E x) (h' : Ends P' E' x) :
    Ends (fun a => P a ∧ P' a) E x := by
  cases x with
  | error e => exact h
  | ok a => exact ⟨h, h'⟩

theorem with_eq {x : Except ε α} (h : Ends P E x) : Ends (fun a => P a ∧ x = .ok a) E x := by
  cases x with
  | error e => exact h
  | ok a => exact ⟨h, rfl⟩

theorem foldlM {σ : Type} {I : σ → Prop} {f : σ → α → Except ε σ} {l : List α}
    (h : ∀ s, ∀ a ∈ l, I s → Ends I E (f s a)) {s : σ} (hs : I s) : Ends I E (l.foldlM f s) := by
  induction l generalizing s with
  | nil => exact hs
  | cons a l ih =>
    rw [List.foldlM_cons]
    refine (h s a List.mem_cons_self hs).bind fun s' hs' => ?_
    exact ih (fun s b hb => h s b (List.mem_cons_of_mem a hb)) hs'

theorem mapM {f : α → Except ε β} {l : List α}
    (h : ∀ a ∈ l, Ends Q E (f a)) : Ends (fun bs => bs.length = l.length ∧ ∀ b ∈ bs, Q b) E (l.mapM f) := by
  induction l with
  | nil => exact ⟨rfl, fun b hb => (nomatch hb)⟩
  | cons a l ih =>
    rw [List.mapM_cons]
    refine (h a List.mem_cons_self).bind fun b hb => ?_
    refine (ih fun a ha => h a (List.mem_cons_of_mem _ ha)).bind fun bs hbs => ?_
    refine ⟨by rw [List.length_cons, List.length_cons, hbs.1], fun b' hb' => ?_⟩
    rcases List.mem_cons.mp hb' with rfl | hb'
    · exact hb
    · exact hbs.2 b' hb'

theorem refuse {p : Prop} [Decidable p] {e : ε} (he : E e) :
    Ends (fun _ => ¬p) E (if p then .error e else .ok () : Except ε Unit) := by
  split
  · exact he
  · assumption

theorem attempt {F : Fault → Prop} {x : Except Fault α} (h : Ends P F x) (m : Machine) :
    Ends P (fun halt : Halt => F halt.fault) (m.attempt x) := by
  cases x with
  | error f => exact h
  | ok a => exact h

end Ends

/-! ### Parts of a machine -/

namespace Machine
variable {env : Env} {m m' : Machine}

theorem peek_eq {i : Nat} (h : i < m.stack.length) : ∃ item ∈ m.stack, m.peek i = .ok item := by
  refine ⟨m.stack[i], List.getElem_mem h, ?_⟩
  unfold peek
  rw [List.getElem?_eq_getElem h]

theorem pop_eq {n : Nat} (h : n ≤ m.stack.length) : m.pop n = .ok { m with stack := m.stack.drop n } :=
  if_pos h

theorem replace_eq {n : Nat} (h : n ≤ m.stack.length) (item : Bytes) :
    m.replace n item = .ok { m with stack := item :: m.stack.drop n } := by
  unfold replace
  rw [pop_eq h]
  rfl

/-! ### Parts that halt where they are

What holds of the state holds of their halts, whatever the fault. -/

section
variable {E : Halt → Prop} (he : ∀ f, E ⟨f, m⟩)
include he

theorem fail_ends {α : Type} {P : α → Prop} (f : Fault) : Ends P E (m.fail f : Except Halt α) := he _

theorem attempt_ends {α : Type} (x : Except Fault α) : Ends (fun a => x = .ok a) E (m.attempt x) := by
  cases x with
  | error f => exact he f
  | ok a => exact rfl

theorem requireDepth_ends (depth : Int) : Ends (fun _ => depth ≤ m.stack.length) E (m.requireDepth depth) := by
  unfold requireDepth
  split
  · exact he _
  · rename_i h
    exact Int.not_lt.mp h

theorem peek_ends (i : Nat) : Ends (fun item => m.stack[i]? = some item) E (m.peek i) := by
  unfold peek
  split
  · rename_i h
    exact h
  · exact he _

theorem pop_ends (n : Nat) :
    Ends (fun m' => n ≤ m.stack.length ∧ m' = { m with stack := m.stack.drop n }) E (m.pop n) := by
  unfold pop
  split
  · rename_i h
    exact ⟨h, rfl⟩
  · exact he _

theorem replace_ends (n : Nat) (item : Bytes) :
    Ends (fun m' => n ≤ m.stack.length ∧ m' = { m with stack := item :: m.stack.drop n }) E (m.replace n item) := by
  refine (pop_ends he n).bind fun m' hm' => ?_
  exact ⟨hm'.1, by rw [hm'.2]⟩

theorem popAlt_ends : Ends (fun r => m.alt = r.1 :: r.2.alt ∧ r.2 = { m with alt := r.2.alt }) E m.popAlt := by
  unfold popAlt
  split
  · exact he _
  · rename_i h
    exact ⟨h, rfl⟩

theorem requireRoom_ends (count : Nat) :
    Ends (fun _ => (m.size : Int) + count ≤ env.limits.stackSize) E (m.requireRoom env count) := by
  unfold requireRoom
  split
  · exact he _
  · rename_i h
    exact Int.not_lt.mp h

theorem requireTrueTop_ends : Ends (fun _ => Number.isTrue m.top = true) E m.requireTrueTop := by
  unfold requireTrueTop
  split
  · assumption
  · exact he _

theorem requireClean_ends : Ends (fun _ => True) E (m.requireClean env) := by
  unfold requireClean
  split
  · exact he _
  · trivial

theorem popVerify_ends (v : Verification) :
    Ends (fun m' => m' = { m with stack := m.stack.drop 1 }) E (m.popVerify v) := by
  refine (peek_ends he 0).bind fun item _ => ?_
  split
  · exact (pop_ends he 1).mono fun _ h => h.2
  · exact fail_ends he _

theorem checkOne_ends (strict : Flags) (code sig key : Bytes) :
    Ends (fun r => ∃ calls, r.2 = { m with calls := calls }) E (m.checkOne env strict code sig key) := by
  refine (attempt_ends he _).bind fun parsed _ => (attempt_ends he _).bind fun _ _ => ?_
  split
  · exact ⟨m.calls, rfl⟩
  · exact fail_ends he _
  · exact ⟨_, rfl⟩

end

/-- A scan keeps what its single checks keep, and fails as they do. -/
theorem matchAll_ends {I : Machine → Prop} {E : Halt → Prop} {code : Bytes}
    (hone : ∀ m, I m → ∀ sig key, Ends (fun r => I r.2) E (m.checkOne env (.single .requireStrictDerMultisig) code sig key))
    (hm : I m) (sigs keys : List Bytes) : Ends (fun r => I r.2) E (matchAll env code sigs keys m) := by
  -- each round uses up a key, whether or not it uses up a signature
  induction keys generalizing sigs m with
  | nil => cases sigs <;> exact hm
  | cons key keys ih =>
    cases sigs with
    | nil => exact hm
    | cons sig sigs =>
      unfold matchAll
      split
      · exact hm
      · exact (hone m hm sig key).bind fun r hr => ih hr _

/-- The state in which an operation acts, once it has been counted. -/
def begun (m : Machine) (o : Operation) (count : Int) : Machine :=
  { m.advance o with execute := m.isExecuting, opCount := count }

theorem checkItem_ends {o : Operation} {E : Halt → Prop} (he : ∀ f, E ⟨f, m⟩) :
    Ends (fun _ => True) E (checkItem env o m) := by
  unfold checkItem
  split
  · exact (attempt_ends he _).mono fun _ _ => trivial
  · trivial

theorem bump_ends {E : Halt → Prop} (he : ∀ f n, E ⟨f, { m with opCount := n }⟩) (count : Int) :
    Ends (fun m' => ∃ n, m' = { m with opCount := n }) E (m.bump env count) := by
  unfold bump
  dsimp only
  split
  · exact he _ _
  · exact ⟨_, rfl⟩

theorem count_ends {o : Operation} {E : Halt → Prop} (he : ∀ f n, E ⟨f, m.begun o n⟩) :
    Ends (fun m' => ∃ n, m' = m.begun o n) E (count env o (m.begun o m.opCount)) := by
  unfold count
  split
  · exact bump_ends he 1
  · exact ⟨_, rfl⟩

/-- A step ends as its action does, unless it halts before that. -/
theorem step_ends {o : Operation} {P : Machine → Prop} {E : Halt → Prop} (hcheck : ∀ f, E ⟨f, m.advance o⟩)
    (hcount : ∀ f n, E ⟨f, m.begun o n⟩)
    (hact : ∀ n, Ends P E (if (m.begun o n).execute then execute1 env o (m.begun o n) else skip1 env o (m.begun o n))) :
    Ends P E (m.step env o) := by
  refine (checkItem_ends hcheck).bind fun _ _ => (count_ends hcount).bind fun m' hm' => ?_
  obtain ⟨n, rfl⟩ := hm'
  split
  · exact hcount _ _
  · exact hact n

/-! ### Parts that succeed -/

theorem eq_cons_of_getElem? {item : Bytes} {s : List Bytes} (h : s[0]? = some item) : ∃ rest, s = item :: rest :=
  List.head?_eq_some_iff.mp (List.head?_eq_getElem?.trans h)

theorem top_eq_of_stack (h : m.stack = m'.stack) : m.top = m'.top := congrArg (List.headD · []) h

theorem requireDepth_eq_ok {depth : Int} {u : Unit} : m.requireDepth depth = .ok u ↔ depth ≤ m.stack.length :=
  refuse_eq_ok.trans Int.not_lt

theorem requireRoom_eq_ok {count : Nat} {u : Unit} :
    m.requireRoom env count = .ok u ↔ (m.size : Int) + count ≤ env.limits.stackSize :=
  refuse_eq_ok.trans Int.not_lt

theorem peek_eq_ok {i : Nat} {item : Bytes} : m.peek i = .ok item ↔ m.stack[i]? = some item := by
  unfold peek
  cases m.stack[i]? with
  | none => exact ⟨fun h => (nomatch h), fun h => (nomatch h)⟩
  | some item' => exact ⟨fun h => congrArg some (Except.ok.inj h), fun h => congrArg Except.ok (Option.some.inj h)⟩

theorem pop_eq_ok {n : Nat} : m.pop n = .ok m' ↔ n ≤ m.stack.length ∧ m' = { m with stack := m.stack.drop n } := by
  unfold pop
  split
  · rename_i h
    exact ⟨fun h' => ⟨h, (Except.ok.inj h').symm⟩, fun h' => congrArg Except.ok h'.2.symm⟩
  · rename_i h
    exact ⟨fun h' => (nomatch h'), fun h' => absurd h'.1 h⟩

theorem replace_eq_ok {n : Nat} {item : Bytes} : m.replace n item = .ok m' ↔
    n ≤ m.stack.length ∧ m' = { m with stack := item :: m.stack.drop n } := by
  unfold replace
  simp only [bind_eq_ok, pop_eq_ok]
  constructor
  · rintro ⟨_, ⟨h, rfl⟩, h'⟩
    exact ⟨h, (Except.ok.inj h').symm⟩
  · rintro ⟨h, rfl⟩
    exact ⟨_, ⟨h, rfl⟩, rfl⟩

theorem push_eq_ok {item : Bytes} : m.push env item = .ok m' ↔
    (m.size : Int) + 1 ≤ env.limits.stackSize ∧ m' = { m with stack := item :: m.stack } := by
  unfold push pushAll
  simp only [bind_eq_ok, requireRoom_eq_ok]
  constructor
  · rintro ⟨_, h, h'⟩
    exact ⟨h, (Except.ok.inj h').symm⟩
  · rintro ⟨h, rfl⟩
    exact ⟨(), h, rfl⟩

theorem attempt_eq_ok {α : Type} {x : Except Fault α} {a : α} : m.attempt x = .ok a ↔ x = .ok a := by
  cases x with
  | ok b => exact ⟨fun h => congrArg Except.ok (Except.ok.inj h), fun h => congrArg Except.ok (Except.ok.inj h)⟩
  | error f => exact ⟨fun h => (nomatch h), fun h => (nomatch h)⟩

theorem bump_eq_ok {n : Int} : m.bump env n = .ok m' ↔
    m.opCount + n ≤ env.limits.opsPerScript ∧ m' = { m with opCount := m.opCount + n } := by
  unfold bump
  dsimp only
  split
  · rename_i h
    exact ⟨fun h' => (nomatch h'), fun h' => absurd h (Int.not_lt.mpr h'.1)⟩
  · rename_i h
    exact ⟨fun h' => ⟨Int.not_lt.mp h, (Except.ok.inj h').symm⟩, fun h' => congrArg Except.ok h'.2.symm⟩

theorem number_eq_ok {l : Limits} {item : Bytes} {n : Int} : l.number item = .ok n ↔
    (item.length : Int) ≤ l.numberLength ∧ (l.flags.has .requireMinimalPush = true → Number.isMinimal item = true) ∧
      n = Number.decode item := by
  unfold Limits.number Limits.checkNumberLength
  by_cases hlen : (item.length : Int) ≤ l.numberLength
  · rw [if_pos hlen]
    by_cases hmin : l.flags.has .requireMinimalPush = true ∧ ¬Number.isMinimal item = true
    · refine ⟨fun h => ?_, fun h => absurd (h.2.1 hmin.1) hmin.2⟩
      rw [if_pos hmin] at h
      cases h
    · rw [if_neg hmin]
      constructor
      · intro h
        refine ⟨hlen, fun hf => ?_, (Except.ok.inj h).symm⟩
        exact Decidable.byContradiction fun hn => hmin ⟨hf, hn⟩
      · rintro ⟨-, -, rfl⟩
        rfl
  · rw [if_neg hlen]
    exact ⟨fun h => (nomatch h), fun h => absurd h.1 hlen⟩

theorem checkPublicKeyCount_eq_ok {l : Limits} {n : Int} {u : Unit} : l.checkPublicKeyCount n = .ok u ↔
    0 ≤ n ∧ n ≤ l.keysPerMultisig := by
  unfold Limits.checkPublicKeyCount
  split
  · rename_i h
    exact ⟨fun _ => h, fun _ => rfl⟩
  · rename_i h
    exact ⟨fun h' => (nomatch h'), fun h' => absurd h' h⟩

/-! ### Scripts and spends -/

/-- A script succeeds when it is not too long, reads to its end, and its operations leave no condition open. -/
theorem runScript_eq_ok {script : Bytes} : m.runScript env script = .ok m' ↔
    (script.length : Int) ≤ env.limits.scriptSize ∧ ∃ ops, Script.decode script = .ok ops ∧
      ops.foldlM (step env) (m.begin script) = .ok m' ∧ m'.conditions = [] := by
  unfold runScript
  split
  · rename_i hsize
    exact ⟨fun h => (nomatch h), fun h => absurd h.1 (Int.not_le.mpr hsize)⟩
  · rename_i hsize
    have hle := Int.not_lt.mp hsize
    constructor
    · intro h
      obtain ⟨m₁, hrun, hfinish⟩ := bind_eq_ok.mp h
      unfold finish at hfinish
      split at hfinish
      · cases hfinish
      · cases hfinish
      · rename_i hcut hclosed
        cases hfinish
        exact ⟨hle, _, by unfold Script.decode Listing.complete; rw [hcut], hrun, hclosed⟩
    · rintro ⟨-, ops, hdecode, hrun, hclosed⟩
      obtain ⟨rfl, hcut⟩ := Script.listing_of_decode hdecode
      refine bind_eq_ok.mpr ⟨m', hrun, ?_⟩
      unfold finish
      rw [hcut, hclosed]

theorem requireTrueTop_eq_ok {u : Unit} : m.requireTrueTop = .ok u ↔ Number.isTrue m.top = true := by
  unfold requireTrueTop
  split
  · rename_i h
    exact ⟨fun _ => h, fun _ => rfl⟩
  · rename_i h
    exact ⟨fun h' => (nomatch h'), fun h' => absurd h' h⟩

theorem requireClean_eq_ok {u : Unit} : m.requireClean env = .ok u ↔
    (env.limits.flags.has .requireCleanStack = true → m.stack.length = 1) := by
  refine refuse_eq_ok.trans ⟨fun h hf => ?_, fun h hf => hf.2 (h hf.1)⟩
  exact Decidable.byContradiction fun hn => h ⟨hf, hn⟩

/-- A spend succeeds when both scripts do, the second leaves a true item, the redeem script, if there is one to
    run, succeeds too, and the stack is as the flags want it. -/
theorem spend_eq_ok {unlock lock : Bytes} : m.spend env unlock lock = .ok m' ↔
    (env.limits.flags.has .requireSigPushOnly = true → Script.isPushOnly unlock = true) ∧
    ∃ unlocked locked, m.runScript env unlock = .ok unlocked ∧ unlocked.runScript env lock = .ok locked ∧
      Number.isTrue locked.top = true ∧ locked.redeem env unlock lock unlocked.stack = .ok m' ∧
      (env.limits.flags.has .requireCleanStack = true → m'.stack.length = 1) := by
  unfold spend
  by_cases h : env.limits.flags.has .requireSigPushOnly = true ∧ ¬Script.isPushOnly unlock = true
  · rw [if_pos h]
    exact ⟨fun h' => (nomatch h'), fun h' => absurd (h'.1 h.1) h.2⟩
  · rw [if_neg h]
    simp only [bind_eq_ok, requireTrueTop_eq_ok, requireClean_eq_ok]
    constructor
    · rintro ⟨unlocked, hu, locked, hl, _, ht, final, hr, _, hc, heq⟩
      cases heq
      exact ⟨fun hf => Decidable.byContradiction fun hp => h ⟨hf, hp⟩, unlocked, locked, hu, hl, ht, hr, hc⟩
    · rintro ⟨-, unlocked, locked, hu, hl, ht, hr, hc⟩
      exact ⟨unlocked, hu, locked, hl, (), ht, m', hr, (), hc, rfl⟩

end Machine

/-- The scripts that a spend comes to, with the state that each begins in. -/
inductive Begins (env : Env) (unlock lock : Bytes) : Bytes → Machine → Prop
  | unlocking : Begins env unlock lock unlock { }
  | locking {unlocked : Machine} (hunlock : Machine.runScript env unlock { } = .ok unlocked) :
    Begins env unlock lock lock unlocked
  | redeeming {unlocked locked : Machine} {script : Bytes} {below : List Bytes}
    (hunlock : Machine.runScript env unlock { } = .ok unlocked) (hlock : unlocked.runScript env lock = .ok locked)
    (htrue : Number.isTrue locked.top = true) (hp2sh : env.limits.flags.has .enableP2sh = true ∧ Script.isP2SH lock = true)
    (hpush : Script.isPushOnly unlock = true) (hleft : unlocked.stack = script :: below) :
    Begins env unlock lock script { locked with stack := below }

/-- An evaluation succeeds with what the run leaves. -/
theorem evaluate_success {env : Env} {unlock lock : Bytes} {e : Evaluation} :
    evaluate env unlock lock = .ok e ∧ e.success = true ↔
      ∃ m : Machine, Machine.spend env unlock lock { } = .ok m ∧ e = ⟨none, m.stack.reverse, m.calls.reverse⟩ := by
  unfold evaluate
  cases Machine.spend env unlock lock { } with
  | ok m =>
    constructor
    · rintro ⟨he, -⟩
      exact ⟨m, rfl, (Except.ok.inj he).symm⟩
    · rintro ⟨_, hm, rfl⟩
      cases hm
      exact ⟨rfl, rfl⟩
  | error h =>
    refine ⟨fun ⟨he, hs⟩ => ?_, fun ⟨_, hm, _⟩ => (nomatch hm)⟩
    unfold Evaluation.ofRun at he
    dsimp only at he
    split at he
    · rw [← Except.ok.inj he] at hs
      cases hs
    · cases he

end SpendScript
