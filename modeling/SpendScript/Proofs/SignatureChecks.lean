import SpendScript.Proofs.Outcome

/-! # Signature checks

A signature check finds its operands on top of the stack and leaves its result in their place (`checkSig_eq_ok`,
`checkMultiSig_eq_ok`). A multiple check tries each key once, from the last to the first, on the last signature that
has no key yet. This finds an assignment of signatures to keys in order if there is one (`matchAll_answers`). -/

namespace SpendScript

open Machine

/-! ### Assignments in order -/

section
variable {α β : Type} {p : α → β → Prop} {a : α} {b : β} {as : List α} {bs : List β}

/-- Each of some elements is assigned one of others that it goes with, later ones to later ones. -/
def Assigned (p : α → β → Prop) (as : List α) (bs : List β) : Prop :=
  ∃ f : Nat → Nat, (∀ i j, i < j → j < as.length → f i < f j) ∧
    ∀ i a, as[i]? = some a → ∃ b, bs[f i]? = some b ∧ p a b

theorem assigned_nil : Assigned p [] bs :=
  ⟨id, fun _ _ _ hj => absurd hj (Nat.not_lt_zero _), fun _ _ h => by simp at h⟩

theorem not_assigned_nil : ¬Assigned p (a :: as) [] := by
  rintro ⟨f, -, h⟩
  obtain ⟨b, hb, -⟩ := h 0 a rfl
  simp at hb

/-- An assignment need not use the first of the others. -/
theorem Assigned.cons_right (h : Assigned p as bs) : Assigned p as (b :: bs) := by
  obtain ⟨f, hlt, hf⟩ := h
  refine ⟨fun i => f i + 1, fun i j hij hj => Nat.add_lt_add_right (hlt i j hij hj) 1, fun i a ha => ?_⟩
  obtain ⟨b', hb', hp⟩ := hf i a ha
  exact ⟨b', by rwa [List.getElem?_cons_succ], hp⟩

theorem Assigned.cons (hab : p a b) (h : Assigned p as bs) : Assigned p (a :: as) (b :: bs) := by
  obtain ⟨f, hlt, hf⟩ := h
  refine ⟨fun i => Nat.casesOn i 0 fun i => f i + 1, fun i j hij hj => ?_, fun i x hx => ?_⟩
  · obtain ⟨j, rfl⟩ := Nat.exists_eq_succ_of_ne_zero (Nat.ne_zero_of_lt hij)
    cases i with
    | zero => exact Nat.succ_pos _
    | succ i => exact Nat.succ_lt_succ (hlt i j (Nat.lt_of_succ_lt_succ hij) (Nat.lt_of_succ_lt_succ hj))
  · cases i with
    | zero =>
      cases hx
      exact ⟨b, rfl, hab⟩
    | succ i =>
      obtain ⟨b', hb', hp⟩ := hf i x hx
      exact ⟨b', by rwa [List.getElem?_cons_succ], hp⟩

theorem Assigned.tail (h : Assigned p (a :: as) bs) : Assigned p as bs := by
  obtain ⟨f, hlt, hf⟩ := h
  refine ⟨fun i => f (i + 1), fun i j hij hj => ?_, fun i x hx => hf (i + 1) x hx⟩
  exact hlt (i + 1) (j + 1) (Nat.succ_lt_succ hij) (Nat.succ_lt_succ hj)

/-- If the first element is assigned another than the first of the others, so are all. -/
theorem Assigned.of_cons_right {f : Nat → Nat} (hlt : ∀ i j, i < j → j < as.length → f i < f j)
    (hf : ∀ i a, as[i]? = some a → ∃ b', (b :: bs)[f i]? = some b' ∧ p a b') (hpos : 0 < f 0) : Assigned p as bs := by
  have hall : ∀ i, i < as.length → 0 < f i := by
    intro i hi
    rcases Nat.eq_zero_or_pos i with rfl | h
    · exact hpos
    · exact Nat.lt_trans hpos (hlt 0 i h hi)
  refine ⟨fun i => f i - 1, fun i j hij hj => ?_, fun i a ha => ?_⟩
  · have hi := hall i (Nat.lt_trans hij hj)
    have hfij := hlt i j hij hj
    dsimp only
    omega
  · obtain ⟨k, hk⟩ := Nat.exists_eq_succ_of_ne_zero (Nat.pos_iff_ne_zero.mp (hall i (List.getElem?_eq_some_iff.mp ha).1))
    obtain ⟨b', hb', hp⟩ := hf i a ha
    rw [hk, List.getElem?_cons_succ] at hb'
    refine ⟨b', ?_, hp⟩
    dsimp only
    rw [hk]
    exact hb'

theorem assigned_cons_iff : Assigned p (a :: as) (b :: bs) ↔
    (p a b ∧ Assigned p as bs) ∨ Assigned p (a :: as) bs := by
  constructor
  · rintro ⟨f, hlt, hf⟩
    rcases Nat.eq_zero_or_pos (f 0) with h0 | hpos
    · obtain ⟨b', hb', hp⟩ := hf 0 a rfl
      rw [h0] at hb'
      cases hb'
      refine Or.inl ⟨hp, ?_⟩
      cases as with
      | nil => exact assigned_nil
      | cons a' as =>
        have hpos : 0 < f 1 := h0 ▸ hlt 0 1 Nat.one_pos (Nat.succ_lt_succ (Nat.succ_pos _))
        refine Assigned.of_cons_right (b := b) (f := fun i => f (i + 1)) (fun i j hij hj => ?_) (fun i x hx => ?_) hpos
        · exact hlt (i + 1) (j + 1) (Nat.succ_lt_succ hij) (Nat.succ_lt_succ hj)
        · exact hf (i + 1) x hx
    · exact Or.inr (Assigned.of_cons_right hlt hf hpos)
  · rintro (⟨hab, h⟩ | h)
    · exact h.cons hab
    · exact h.cons_right

/-- There are at least as many of the others. -/
theorem Assigned.length_le (h : Assigned p as bs) : as.length ≤ bs.length := by
  induction bs generalizing as with
  | nil =>
    cases as with
    | nil => exact Nat.le_refl _
    | cons a as => exact absurd h not_assigned_nil
  | cons b bs ih =>
    cases as with
    | nil => exact Nat.zero_le _
    | cons a as =>
      rcases assigned_cons_iff.mp h with ⟨-, h⟩ | h
      · exact Nat.succ_le_succ (ih h)
      · exact Nat.le_succ_of_le (ih h)

theorem Assigned.reverse (h : Assigned p as bs) : Assigned p as.reverse bs.reverse := by
  obtain ⟨f, hlt, hf⟩ := h
  have hbound : ∀ i, i < as.length → f i < bs.length := by
    intro i hi
    obtain ⟨b, hb, -⟩ := hf i as[i] (List.getElem?_eq_getElem hi)
    exact (List.getElem?_eq_some_iff.mp hb).1
  refine ⟨fun i => bs.length - 1 - f (as.length - 1 - i), fun i j hij hj => ?_, fun i a ha => ?_⟩
  · rw [List.length_reverse] at hj
    have hfij := hlt (as.length - 1 - j) (as.length - 1 - i) (by omega) (by omega)
    have hi := hbound (as.length - 1 - i) (by omega)
    dsimp only
    omega
  · have hi : i < as.length := by
      rw [← List.length_reverse]
      exact (List.getElem?_eq_some_iff.mp ha).1
    rw [List.getElem?_reverse hi] at ha
    obtain ⟨b, hb, hp⟩ := hf _ a ha
    have hlast := hbound (as.length - 1 - i) (by omega)
    refine ⟨b, ?_, hp⟩
    have hback : bs.length - 1 - (bs.length - 1 - f (as.length - 1 - i)) = f (as.length - 1 - i) := by omega
    rw [List.getElem?_reverse (by dsimp only; omega), hback, hb]

theorem assigned_reverse : Assigned p as.reverse bs.reverse ↔ Assigned p as bs := by
  constructor
  · intro h
    have hback := h.reverse
    rwa [List.reverse_reverse, List.reverse_reverse] at hback
  · exact Assigned.reverse

theorem Assigned.mono {q : α → β → Prop} (h : Assigned p as bs) (hpq : ∀ a ∈ as, ∀ b, p a b → q a b) :
    Assigned q as bs := by
  obtain ⟨f, hlt, hf⟩ := h
  refine ⟨f, hlt, fun i a ha => ?_⟩
  obtain ⟨b, hb, hp⟩ := hf i a ha
  exact ⟨b, hb, hpq a (List.mem_of_getElem? ha) b hp⟩

theorem assigned_map {α' β' : Type} {f : α' → α} {g : β' → β} {as : List α'} {bs : List β'} :
    Assigned p (as.map f) (bs.map g) ↔ Assigned (fun a b => p (f a) (g b)) as bs := by
  constructor
  · rintro ⟨k, hlt, hk⟩
    rw [List.length_map] at hlt
    refine ⟨k, hlt, fun i a ha => ?_⟩
    obtain ⟨b, hb, hp⟩ := hk i (f a) (by rw [List.getElem?_map, ha]; rfl)
    rw [List.getElem?_map, Option.map_eq_some_iff] at hb
    obtain ⟨b, hb, rfl⟩ := hb
    exact ⟨b, hb, hp⟩
  · rintro ⟨k, hlt, hk⟩
    refine ⟨k, by rwa [List.length_map], fun i a ha => ?_⟩
    rw [List.getElem?_map, Option.map_eq_some_iff] at ha
    obtain ⟨a, ha, rfl⟩ := ha
    obtain ⟨b, hb, hp⟩ := hk i a ha
    exact ⟨g b, by rw [List.getElem?_map, hb]; rfl, hp⟩

end

/-! ### One check -/

section
variable {env : Env} {m m' : Machine}

theorem checkOne_eq_ok {strict : Flags} {code sig key : Bytes} {good : Bool} :
    m.checkOne env strict code sig key = .ok (good, m') ↔ env.limits.checkPublicKey key = .ok () ∧
      ((env.limits.checkSignature sig strict = .ok none ∧ good = false ∧ m' = m) ∨
        ∃ txSig check, env.limits.checkSignature sig strict = .ok (some txSig) ∧ env.sigCheck = some check ∧
          good = check code key txSig ∧ m' = { m with calls := ⟨code, key, txSig, good⟩ :: m.calls }) := by
  unfold checkOne
  simp only [bind_eq_ok, attempt_eq_ok]
  constructor
  · rintro ⟨parsed, hparsed, _, hkey, h⟩
    refine ⟨hkey, ?_⟩
    split at h
    · cases h
      exact Or.inl ⟨hparsed, rfl, rfl⟩
    · cases h
    · rename_i txSig check hcheck
      cases h
      exact Or.inr ⟨txSig, check, hparsed, hcheck, rfl, rfl⟩
  · rintro ⟨hkey, ⟨hparsed, rfl, rfl⟩ | ⟨txSig, check, hparsed, hcheck, rfl, rfl⟩⟩
    · exact ⟨none, hparsed, (), hkey, rfl⟩
    · refine ⟨some txSig, hparsed, (), hkey, ?_⟩
      rw [hcheck]
      rfl

theorem checkOne_calls {strict : Flags} {code sig key : Bytes} {r : Bool × Machine}
    (h : m.checkOne env strict code sig key = .ok r) : ∃ calls, r.2 = { m with calls := calls } := by
  obtain ⟨-, ⟨-, -, hm⟩ | ⟨_, _, -, -, -, hm⟩⟩ := checkOne_eq_ok.mp h
  · exact ⟨m.calls, hm⟩
  · exact ⟨_, hm⟩

theorem checkSig_eq_ok : m.checkSig env = .ok m' ↔
    ∃ key sig rest code good m₁, m.stack = key :: sig :: rest ∧ Limits.cleanCode sig m.code = .ok code ∧
      m.checkOne env (.single .requireStrictDer) code sig key = .ok (good, m₁) ∧
      m' = { m₁ with stack := Number.ofBool good :: rest } := by
  unfold checkSig
  simp only [bind_eq_ok, requireDepth_eq_ok, peek_eq_ok, attempt_eq_ok, replace_eq_ok]
  constructor
  · rintro ⟨_, -, key, hkey, sig, hsig, code, hcode, ⟨good, m₁⟩, hone, -, rfl⟩
    obtain ⟨calls, rfl⟩ := checkOne_calls hone
    obtain ⟨below, hbelow⟩ := eq_cons_of_getElem? hkey
    rw [hbelow, List.getElem?_cons_succ] at hsig
    obtain ⟨rest, rfl⟩ := eq_cons_of_getElem? hsig
    exact ⟨key, sig, rest, code, good, _, hbelow, hcode, hone, by rw [hbelow]; rfl⟩
  · rintro ⟨key, sig, rest, code, good, m₁, hstack, hcode, hone, rfl⟩
    obtain ⟨calls, rfl⟩ := checkOne_calls hone
    have hdepth : 2 ≤ m.stack.length := hstack ▸ Nat.le_add_left 2 rest.length
    refine ⟨(), Int.ofNat_le.mpr hdepth, key, by rw [hstack]; rfl, sig, by rw [hstack]; rfl, code, hcode, _, hone,
      hdepth, ?_⟩
    rw [hstack]
    rfl

end

/-! ### The scan -/

section
variable {ε σ : Type}

/-- The scan of a multiple check, for any way to check one signature against one key. -/
def scan (check : Bytes → Bytes → σ → Except ε (Bool × σ)) : (sigs keys : List Bytes) → σ → Except ε (Bool × σ)
  | [], _, s => .ok (true, s)
  | _ :: _, [], s => .ok (false, s)
  | sig :: sigs, key :: keys, s =>
    if keys.length < sigs.length then .ok (false, s)
    else check sig key s >>= fun r => scan check (if r.1 then sigs else sig :: sigs) keys r.2

variable {check : Bytes → Bytes → σ → Except ε (Bool × σ)} {sigs keys : List Bytes} {s s' : σ}

theorem mem_of_mem_left {good : Bool} {sig other : Bytes} (h : other ∈ if good then sigs else sig :: sigs) :
    other ∈ sig :: sigs := by
  cases good with
  | true => exact List.mem_cons_of_mem sig h
  | false => exact h

/-- A scan whose checks all come to an answer does so. -/
theorem scan_total (h : ∀ sig ∈ sigs, ∀ key ∈ keys, ∀ s, ∃ r, check sig key s = .ok r) :
    ∃ r, scan check sigs keys s = .ok r := by
  fun_induction scan check sigs keys s with
  | case1 keys s | case2 sig sigs s | case3 sig sigs key keys s => exact ⟨_, rfl⟩
  | case4 sig sigs key keys s hfew ih =>
    obtain ⟨r, hone⟩ := h sig List.mem_cons_self key List.mem_cons_self s
    obtain ⟨r', hrest⟩ := ih r fun other hother k hk => h other (mem_of_mem_left hother) k (List.mem_cons_of_mem key hk)
    exact ⟨r', bind_eq_ok.mpr ⟨r, hone, hrest⟩⟩

/-- A scan answers whether there is an assignment of signatures to keys in order, if its checks answer whether a
    signature goes with a key. -/
theorem scan_answers {p : Bytes → Bytes → Prop}
    (hp : ∀ sig ∈ sigs, ∀ key ∈ keys, ∀ s good s', check sig key s = .ok (good, s') → (good = true ↔ p sig key))
    {good : Bool} (h : scan check sigs keys s = .ok (good, s')) : good = true ↔ Assigned p sigs keys := by
  fun_induction scan check sigs keys s with
  | case1 keys s =>
    cases h
    exact ⟨fun _ => assigned_nil, fun _ => rfl⟩
  | case2 sig sigs s =>
    cases h
    exact ⟨fun h => (nomatch h), fun h => absurd h not_assigned_nil⟩
  | case3 sig sigs key keys s hfew =>
    cases h
    exact ⟨fun h => (nomatch h), fun h => absurd h.length_le (Nat.not_le.mpr (Nat.succ_lt_succ hfew))⟩
  | case4 sig sigs key keys s hfew ih =>
    obtain ⟨⟨answer, s₁⟩, hone, h⟩ := bind_eq_ok.mp h
    have hfirst := hp sig List.mem_cons_self key List.mem_cons_self s answer s₁ hone
    have hrest := ih (answer, s₁) (fun other hother k hk =>
      hp other (mem_of_mem_left hother) k (List.mem_cons_of_mem key hk)) h
    refine hrest.trans ?_
    cases answer with
    | true =>
      -- an assignment that leaves this key out could use it for this signature
      refine ⟨fun h => h.cons (hfirst.mp rfl), fun h => ?_⟩
      rcases assigned_cons_iff.mp h with ⟨-, h⟩ | h
      · exact h
      · exact h.tail
    | false =>
      refine ⟨Assigned.cons_right, fun h => ?_⟩
      rcases assigned_cons_iff.mp h with ⟨h, -⟩ | h
      · exact absurd (hfirst.mpr h) Bool.false_ne_true
      · exact h

end

section
variable {env : Env} {code : Bytes} {sigs keys : List Bytes} {m m' : Machine}

theorem matchAll_eq_scan : matchAll env code sigs keys m =
    scan (checkOne env (.single .requireStrictDerMultisig) code) sigs keys m := by
  induction keys generalizing sigs m with
  | nil => cases sigs <;> rfl
  | cons key keys ih =>
    cases sigs with
    | nil => rfl
    | cons sig sigs =>
      unfold matchAll scan
      simp only [ih]

theorem matchAll_calls {r : Bool × Machine} (h : matchAll env code sigs keys m = .ok r) :
    ∃ calls, r.2 = { m with calls := calls } := by
  have hends : Ends (fun r => ∃ calls, r.2 = { m with calls := calls }) (fun _ => True) (matchAll env code sigs keys m) := by
    refine matchAll_ends (I := fun m' => ∃ calls, m' = { m with calls := calls }) ?_ ⟨m.calls, rfl⟩ sigs keys
    rintro _ ⟨_, rfl⟩ sig key
    exact (checkOne_ends (fun _ => trivial) _ code sig key).mono fun r ⟨calls, hr⟩ => ⟨calls, hr⟩
  rw [h] at hends
  exact hends

/-- What a check of one signature in a multiple check answers, whatever was checked before. -/
def Answers (env : Env) (code sig key : Bytes) (good : Bool) : Prop :=
  ∀ m : Machine, ∃ m', m.checkOne env (.single .requireStrictDerMultisig) code sig key = .ok (good, m')

theorem answers_of_checkOne {sig key : Bytes} {good : Bool}
    (h : m.checkOne env (.single .requireStrictDerMultisig) code sig key = .ok (good, m')) :
    Answers env code sig key good := by
  intro m₁
  obtain ⟨hkey, ⟨hsig, hgood, -⟩ | ⟨txSig, check, hsig, hcheck, hgood, -⟩⟩ := checkOne_eq_ok.mp h
  · exact ⟨m₁, checkOne_eq_ok.mpr ⟨hkey, Or.inl ⟨hsig, hgood, rfl⟩⟩⟩
  · exact ⟨_, checkOne_eq_ok.mpr ⟨hkey, Or.inr ⟨txSig, check, hsig, hcheck, hgood, rfl⟩⟩⟩

theorem answers_true_iff {sig key : Bytes} {good : Bool}
    (h : m.checkOne env (.single .requireStrictDerMultisig) code sig key = .ok (good, m')) :
    good = true ↔ Answers env code sig key true := by
  constructor
  · rintro rfl
    exact answers_of_checkOne h
  · intro htrue
    obtain ⟨_, hone⟩ := htrue m
    rw [h] at hone
    cases hone
    rfl

/-- A scan that comes to an end finds an assignment of signatures to keys in order if there is one. -/
theorem matchAll_answers {good : Bool} (h : matchAll env code sigs keys m = .ok (good, m')) :
    good = true ↔ Assigned (fun sig key => Answers env code sig key true) sigs keys := by
  rw [matchAll_eq_scan] at h
  exact scan_answers (fun _ _ _ _ _ _ _ hone => answers_true_iff hone) h

/-- Every signature that a scan has matched passed a check. -/
theorem answers_of_matchAll (h : matchAll env code sigs keys m = .ok (true, m')) {sig : Bytes} (hsig : sig ∈ sigs) :
    ∃ key ∈ keys, Answers env code sig key true := by
  obtain ⟨f, -, hf⟩ := (matchAll_answers h).mp rfl
  obtain ⟨i, hi⟩ := List.getElem?_of_mem hsig
  obtain ⟨key, hkey, hanswer⟩ := hf i sig hi
  exact ⟨key, List.mem_of_getElem? hkey, hanswer⟩

/-- If each check of a signature against a key has an answer of its own, whatever was checked before, a scan answers
    whether there is an assignment of signatures to keys in order. -/
theorem matchAll_decides {p : Bytes → Bytes → Bool}
    (hone : ∀ sig ∈ sigs, ∀ key ∈ keys, ∀ m : Machine, ∃ calls,
      checkOne env (.single .requireStrictDerMultisig) code sig key m = .ok (p sig key, { m with calls := calls })) :
    ∃ good calls, matchAll env code sigs keys m = .ok (good, { m with calls := calls }) ∧
      (good = true ↔ Assigned (fun sig key => p sig key = true) sigs keys) := by
  obtain ⟨⟨good, m'⟩, hscan⟩ := scan_total (s := m) fun sig hsig key hkey m => by
    obtain ⟨calls, h⟩ := hone sig hsig key hkey m
    exact ⟨_, h⟩
  have hmatch := matchAll_eq_scan.trans hscan
  obtain ⟨calls, rfl⟩ : ∃ calls, m' = _ := matchAll_calls hmatch
  refine ⟨good, calls, hmatch, scan_answers (fun sig hsig key hkey m answer m' h => ?_) hscan⟩
  obtain ⟨calls, h'⟩ := hone sig hsig key hkey m
  cases h'.symm.trans h
  exact Iff.rfl

end

/-! ### The multiple check -/

/-- The stack of a multiple check: the number of keys, the keys, the number of signatures, the signatures and one more
    item, on top of the rest. -/
def operands (keyItem sigItem dummy : Bytes) (keys sigs rest : List Bytes) : List Bytes :=
  keyItem :: (keys ++ sigItem :: (sigs ++ dummy :: rest))

theorem exists_operands {s : List Bytes} {n k : Nat} (h : n + k + 3 ≤ s.length) :
    ∃ keyItem sigItem dummy keys sigs rest, s = operands keyItem sigItem dummy keys sigs rest ∧
      keys.length = n ∧ sigs.length = k := by
  obtain ⟨keyItem, s, rfl⟩ := List.exists_cons_of_length_pos (show 0 < s.length by omega)
  rw [List.length_cons] at h
  obtain ⟨sigItem, below, hbelow⟩ :=
    List.exists_cons_of_length_pos (show 0 < (s.drop n).length by rw [List.length_drop]; omega)
  have hlen : (s.drop n).length = below.length + 1 := by rw [hbelow, List.length_cons]
  rw [List.length_drop] at hlen
  obtain ⟨dummy, rest, hrest⟩ :=
    List.exists_cons_of_length_pos (show 0 < (below.drop k).length by rw [List.length_drop]; omega)
  refine ⟨keyItem, sigItem, dummy, s.take n, below.take k, rest, ?_, ?_, ?_⟩
  · rw [operands, ← hrest, List.take_append_drop, ← hbelow, List.take_append_drop]
  · rw [List.length_take]
    omega
  · rw [List.length_take]
    omega

section
variable {env : Env} {m m' : Machine} {keyItem sigItem dummy : Bytes} {keys sigs rest : List Bytes}

theorem keys_operands : ((operands keyItem sigItem dummy keys sigs rest).drop 1).take keys.length = keys :=
  List.take_left

theorem sigItem_operands : (operands keyItem sigItem dummy keys sigs rest)[keys.length + 1]? = some sigItem := by
  simp [operands]

theorem sigs_operands :
    ((operands keyItem sigItem dummy keys sigs rest).drop (keys.length + 2)).take sigs.length = sigs := by
  have hsplit : operands keyItem sigItem dummy keys sigs rest =
      (keyItem :: (keys ++ [sigItem])) ++ (sigs ++ dummy :: rest) := by
    simp [operands]
  rw [hsplit, List.drop_left' (by simp), List.take_left]

theorem drop_operands :
    (operands keyItem sigItem dummy keys sigs rest).drop (keys.length + sigs.length + 2) = dummy :: rest := by
  have hsplit : operands keyItem sigItem dummy keys sigs rest =
      (keyItem :: (keys ++ sigItem :: sigs)) ++ dummy :: rest := by
    simp [operands]
  rw [hsplit]
  refine List.drop_left' ?_
  simp only [List.length_cons, List.length_append]
  omega

theorem checkMultiSig_eq_ok : m.checkMultiSig env = .ok m' ↔
    ∃ (keyItem sigItem dummy : Bytes) (keys sigs rest : List Bytes) (code : Bytes) (good : Bool) (m₁ : Machine),
      m.stack = operands keyItem sigItem dummy keys sigs rest ∧
      env.limits.number keyItem = .ok keys.length ∧ keys.length ≤ env.limits.keysPerMultisig ∧
      m.opCount + keys.length ≤ env.limits.opsPerScript ∧
      env.limits.number sigItem = .ok sigs.length ∧ sigs.length ≤ keys.length ∧
      sigs.reverse.foldlM (fun code sig => Limits.cleanCode sig code) m.code = .ok code ∧
      matchAll env code sigs keys { m with opCount := m.opCount + keys.length } = .ok (good, m₁) ∧
      env.limits.checkNullDummy dummy = .ok () ∧ m' = { m₁ with stack := Number.ofBool good :: rest } := by
  obtain ⟨stack, alt, conditions, execute, opCount, cursor, calls⟩ := m
  unfold checkMultiSig
  simp only [bind_eq_ok, requireDepth_eq_ok, peek_eq_ok, attempt_eq_ok, checkPublicKeyCount_eq_ok, bump_eq_ok]
  constructor
  · rintro ⟨_, -, keyItem, hkeyItem, keyCount, hkeyCount, _, ⟨hkeys0, hkeys⟩, _, ⟨hbump, rfl⟩, _, -, sigItem, hsigItem,
      sigCount, hsigCount, h⟩
    split at h
    · cases h
    · rename_i hcount
      obtain ⟨hsigs0, hsigs⟩ := Decidable.not_not.mp hcount
      simp only [bind_eq_ok, requireDepth_eq_ok, peek_eq_ok, attempt_eq_ok, pop_eq_ok, replace_eq_ok] at h
      obtain ⟨_, hdepth, code, hcode, ⟨good, m₁⟩, hscan, _, ⟨-, rfl⟩, dummy, hdummy, _, hnull, -, rfl⟩ := h
      obtain ⟨n, rfl⟩ := Int.eq_ofNat_of_zero_le hkeys0
      obtain ⟨k, rfl⟩ := Int.eq_ofNat_of_zero_le hsigs0
      obtain ⟨keyItem', sigItem', dummy', keys, sigs, rest, rfl, rfl, rfl⟩ :=
        exists_operands (s := stack) (n := n) (k := k) (by omega)
      obtain ⟨_, rfl⟩ : ∃ calls', m₁ = _ := matchAll_calls hscan
      simp only [Int.toNat_natCast, keys_operands, sigs_operands, sigItem_operands, drop_operands] at *
      cases hkeyItem
      cases hsigItem
      cases hdummy
      exact ⟨_, _, _, keys, sigs, rest, code, good, _, rfl, hkeyCount, hkeys, hbump, hsigCount, Int.ofNat_le.mp hsigs,
        hcode, hscan, hnull, rfl⟩
  · rintro ⟨keyItem, sigItem, dummy, keys, sigs, rest, code, good, m₁, rfl, hkeyCount, hkeys, hbump, hsigCount, hsigs,
      hcode, hscan, hdummy, rfl⟩
    obtain ⟨_, rfl⟩ : ∃ calls', m₁ = _ := matchAll_calls hscan
    have hlen : (operands keyItem sigItem dummy keys sigs rest).length = keys.length + sigs.length + rest.length + 3 := by
      simp only [operands, List.length_cons, List.length_append]
      omega
    have hpop : keys.length + sigs.length + 2 ≤ (operands keyItem sigItem dummy keys sigs rest).length := by omega
    refine ⟨(), by omega, keyItem, rfl, _, hkeyCount, (), ⟨Int.natCast_nonneg _, hkeys⟩, _, ⟨hbump, rfl⟩, (),
      by dsimp only; omega, sigItem, sigItem_operands, _, hsigCount, ?_⟩
    rw [if_neg (fun h => h ⟨Int.natCast_nonneg _, Int.ofNat_le.mpr hsigs⟩)]
    simp only [bind_eq_ok, requireDepth_eq_ok, peek_eq_ok, attempt_eq_ok, pop_eq_ok, replace_eq_ok, Int.toNat_natCast,
      keys_operands, sigs_operands]
    refine ⟨(), by omega, code, hcode, _, hscan, _, ⟨hpop, rfl⟩, dummy, ?_, (), hdummy, ?_⟩
    · dsimp only
      rw [drop_operands]
      rfl
    · dsimp only
      rw [drop_operands]
      exact ⟨Nat.succ_pos _, rfl⟩

theorem operands_inj {keyItem' sigItem' dummy' : Bytes} {keys' sigs' rest' : List Bytes}
    (h : operands keyItem sigItem dummy keys sigs rest = operands keyItem' sigItem' dummy' keys' sigs' rest')
    (hkeys : keyItem = keyItem' → keys.length = keys'.length) (hsigs : sigItem = sigItem' → sigs.length = sigs'.length) :
    keyItem = keyItem' ∧ sigItem = sigItem' ∧ dummy = dummy' ∧ keys = keys' ∧ sigs = sigs' ∧ rest = rest' := by
  obtain ⟨hkeyItem, hbelow⟩ := List.cons.inj h
  obtain ⟨hkeys', hbelow₁⟩ := List.append_inj hbelow (hkeys hkeyItem)
  obtain ⟨hsigItem, hbelow₂⟩ := List.cons.inj hbelow₁
  obtain ⟨hsigs', hbelow₃⟩ := List.append_inj hbelow₂ (hsigs hsigItem)
  obtain ⟨hdummy, hrest⟩ := List.cons.inj hbelow₃
  exact ⟨hkeyItem, hsigItem, hdummy, hkeys', hsigs', hrest⟩

/-- A multiple check on operands whose counts are right and within the limits. -/
theorem checkMultiSig_operands (hstack : m.stack = operands keyItem sigItem dummy keys sigs rest)
    (hkeyCount : env.limits.number keyItem = .ok keys.length) (hsigCount : env.limits.number sigItem = .ok sigs.length)
    (hkeys : keys.length ≤ env.limits.keysPerMultisig) (hsigs : sigs.length ≤ keys.length)
    (hops : m.opCount + keys.length ≤ env.limits.opsPerScript) :
    m.checkMultiSig env = .ok m' ↔ ∃ code good m₁,
      sigs.reverse.foldlM (fun code sig => Limits.cleanCode sig code) m.code = .ok code ∧
      matchAll env code sigs keys { m with opCount := m.opCount + keys.length } = .ok (good, m₁) ∧
      env.limits.checkNullDummy dummy = .ok () ∧ m' = { m₁ with stack := Number.ofBool good :: rest } := by
  rw [checkMultiSig_eq_ok]
  constructor
  · rintro ⟨keyItem', sigItem', dummy', keys', sigs', rest', code, good, m₁, hstack', hkeyCount', -, -, hsigCount', -,
      hcode, hscan, hdummy, hm⟩
    obtain ⟨rfl, rfl, rfl, rfl, rfl, rfl⟩ := operands_inj (hstack.symm.trans hstack')
      (by rintro rfl; exact Int.ofNat_inj.mp (Except.ok.inj (hkeyCount.symm.trans hkeyCount')))
      (by rintro rfl; exact Int.ofNat_inj.mp (Except.ok.inj (hsigCount.symm.trans hsigCount')))
    exact ⟨code, good, m₁, hcode, hscan, hdummy, hm⟩
  · rintro ⟨code, good, m₁, hcode, hscan, hdummy, hm⟩
    exact ⟨keyItem, sigItem, dummy, keys, sigs, rest, code, good, m₁, hstack, hkeyCount, hkeys, hops, hsigCount, hsigs,
      hcode, hscan, hdummy, hm⟩

end

end SpendScript
