import SpendScript.Proofs.WireFormat

/-! # Readers and the bytes that they take

A reader takes bytes for a value if it gives the value whatever follows them (`Wire.Reads`), and it needs all of them if it
finds the stream ended on every first part of them (`Wire.NeedsAll`). Both carry over from readers to what they are put
together to. The bytes that are read as a CompactSize are the forms of a number (`CompactSize.Form`). -/

namespace SpendScript.Wire

section
variable {α β : Type} {read : Reader α} {f : α → Reader β} {a : α} {b : β} {stream rest p p' : Bytes}

/-- A reader gives a value from some bytes, and leaves whatever follows them. -/
def Reads (read : Reader α) (a : α) (p : Bytes) : Prop := ∀ rest, read (p ++ rest) = .ok a rest

def FindsEnd (read : Reader α) (stream : Bytes) : Prop :=
  ∃ got needed rest, read stream = .error (.streamEnded got needed) rest

/-- A reader finds the stream ended where some of these bytes are missing. -/
def NeedsAll (read : Reader α) (p : Bytes) : Prop := ∀ q t, q ++ t = p → t ≠ [] → FindsEnd read q

theorem reader_bind_eq_ok : (read >>= f) stream = .ok b rest ↔ ∃ a mid, read stream = .ok a mid ∧ f a mid = .ok b rest := by
  simp only [bind, EStateM.bind]
  cases read stream with
  | ok a mid =>
    constructor
    · intro h
      exact ⟨a, mid, rfl, h⟩
    · rintro ⟨_, _, h, h'⟩
      cases h
      exact h'
  | error e mid => simp

theorem Reads.pure (a : α) : Reads (pure a) a [] := fun _ => rfl

theorem Reads.bind (ha : Reads read a p) (hb : Reads (f a) b p') : Reads (read >>= f) b (p ++ p') := by
  intro rest
  rw [List.append_assoc]
  exact reader_bind_eq_ok.mpr ⟨a, p' ++ rest, ha (p' ++ rest), hb rest⟩

theorem Reads.map (h : Reads read a p) (g : α → β) : Reads (do return g (← read)) (g a) p :=
  fun rest => reader_bind_eq_ok.mpr ⟨a, rest, h rest, rfl⟩

theorem FindsEnd.bind (h : FindsEnd read stream) (f : α → Reader β) : FindsEnd (read >>= f) stream := by
  obtain ⟨got, needed, rest, h⟩ := h
  refine ⟨got, needed, rest, ?_⟩
  simp only [Bind.bind, EStateM.bind, h]

theorem FindsEnd.of_read (ha : read stream = .ok a rest) (h : FindsEnd (f a) rest) : FindsEnd (read >>= f) stream := by
  obtain ⟨got, needed, left, h⟩ := h
  refine ⟨got, needed, left, ?_⟩
  simp only [Bind.bind, EStateM.bind, ha, h]

theorem NeedsAll.pure (a : α) : NeedsAll (pure a) [] := by
  intro q t hqt ht
  exact absurd (List.append_eq_nil_iff.mp hqt).2 ht

theorem NeedsAll.map (h : NeedsAll read p) (g : α → β) : NeedsAll (do return g (← read)) p :=
  fun q t hqt ht => (h q t hqt ht).bind _

/-- The stream ends within the bytes of the first reader, or it goes on into those of the second one. -/
theorem NeedsAll.bind (hread : Reads read a p) (ha : NeedsAll read p) (hb : NeedsAll (f a) p') :
    NeedsAll (read >>= f) (p ++ p') := by
  intro q t hqt ht
  rcases List.append_eq_append_iff.mp hqt with ⟨s, rfl, rfl⟩ | ⟨s, rfl, rfl⟩
  · by_cases hs : s = []
    · subst hs
      rw [List.append_nil] at hread
      have hstart : read q = .ok a [] := by simpa using hread []
      exact .of_read hstart (hb [] p' rfl ht)
    · exact (ha q s rfl hs).bind f
  · exact .of_read (hread s) (hb s t rfl ht)

end

/-! ### Bytes and words -/

theorem take_eq_ok {size : Nat} {stream bytes rest : Bytes} : take size stream = .ok bytes rest ↔
    size ≤ maxRead ∧ stream.take size = bytes ∧ stream.drop size = rest := by
  unfold take
  split
  · rename_i hsize
    exact ⟨fun h => (nomatch h), fun h => absurd h.1 (Nat.not_le.mpr hsize)⟩
  · rename_i hsize
    simp [Nat.not_lt.mp hsize]

/-- Bytes taken without a check are still needed if what follows them finds an empty stream ended. -/
theorem NeedsAll.take_bind {β : Type} {f : Bytes → Reader β} {size : Nat} {bytes p : Bytes} (hlen : bytes.length = size)
    (hsize : size ≤ maxRead) (hend : ∀ q, FindsEnd (f q) []) (h : NeedsAll (f bytes) p) :
    NeedsAll (take size >>= f) (bytes ++ p) := by
  subst hlen
  intro q t hqt ht
  rcases List.append_eq_append_iff.mp hqt with ⟨s, rfl, rfl⟩ | ⟨s, rfl, rfl⟩
  · have hle : q.length ≤ (q ++ s).length := (List.prefix_append q s).length_le
    have htake := take_eq_ok.mpr ⟨hsize, List.take_of_length_le hle, List.drop_eq_nil_of_le hle⟩
    exact .of_read htake (hend q)
  · exact .of_read (take_append hsize) (h s t rfl ht)

theorem takeExact_eq_ok {size : Nat} {stream bytes rest : Bytes} :
    takeExact size stream = .ok bytes rest ↔ size ≤ maxRead ∧ bytes.length = size ∧ stream = bytes ++ rest := by
  constructor
  · intro h
    obtain ⟨taken, mid, htake, hcheck⟩ := reader_bind_eq_ok.mp h
    obtain ⟨hsize, rfl, rfl⟩ := take_eq_ok.mp htake
    split at hcheck
    · rename_i hlen
      cases hcheck
      exact ⟨hsize, hlen, (List.take_append_drop size stream).symm⟩
    · cases hcheck
  · rintro ⟨hsize, rfl, rfl⟩
    exact takeExact_append hsize

theorem findsEnd_takeExact {size : Nat} {stream : Bytes} (hsize : size ≤ maxRead) (h : stream.length < size) :
    FindsEnd (takeExact size) stream := by
  have htake : take size stream = .ok stream [] :=
    take_eq_ok.mpr ⟨hsize, List.take_of_length_le (Nat.le_of_lt h), List.drop_eq_nil_of_le (Nat.le_of_lt h)⟩
  refine .of_read htake ⟨stream.length, size, [], ?_⟩
  rw [if_neg (Nat.ne_of_lt h)]
  rfl

theorem needsAll_takeExact {bytes : Bytes} (h : bytes.length ≤ maxRead) : NeedsAll (takeExact bytes.length) bytes := by
  intro q t hqt ht
  have hlt : q.length < bytes.length := by
    rw [← hqt, List.length_append]
    exact Nat.lt_add_of_pos_right (List.length_pos_iff.mpr ht)
  exact findsEnd_takeExact h hlt

namespace Word
variable {w : Word} {n : Int} {stream bytes rest : Bytes}

theorem width_int32 : int32.width ≤ maxRead := by decide

theorem width_uint32 : uint32.width ≤ maxRead := by decide

theorem width_int64 : int64.width ≤ maxRead := by decide

theorem length_of_write (h : w.write n = .ok bytes) : bytes.length = w.width := by
  unfold write at h
  split at h
  · cases h
    exact Bytes.length_ofNatLE _ _
  · cases h

theorem fits_value {n : Nat} (h : n < w.modulus) : w.Fits (w.value n) := by
  unfold Fits value
  cases w.signed with
  | false => simp only [Bool.false_eq_true, if_false, false_and]; omega
  | true =>
    simp only [if_true, true_and]
    split <;> omega

theorem value_emod_modulus {n : Nat} (h : n < w.modulus) : (w.value n % w.modulus).toNat = n := by
  have hn : (n : Int) % w.modulus = n := Int.emod_eq_of_lt (Int.natCast_nonneg n) (Int.ofNat_lt.mpr h)
  unfold value
  split
  · rw [Int.sub_emod_right, hn, Int.toNat_natCast]
  · rw [hn, Int.toNat_natCast]

theorem write_value (h : bytes.length = w.width) : w.write (w.value bytes.toNatLE) = .ok bytes := by
  have hlt : bytes.toNatLE < w.modulus := by
    rw [modulus, ← h]
    exact Bytes.toNatLE_lt bytes
  rw [write, if_pos (fits_value hlt), value_emod_modulus hlt, ← h, Bytes.ofNatLE_toNatLE]

theorem read_eq_ok (hw : w.width ≤ maxRead) :
    w.read stream = .ok n rest ↔ ∃ bytes, w.write n = .ok bytes ∧ stream = bytes ++ rest := by
  constructor
  · intro h
    obtain ⟨bytes, mid, htake, hvalue⟩ := reader_bind_eq_ok.mp h
    obtain ⟨-, hlen, rfl⟩ := takeExact_eq_ok.mp htake
    cases hvalue
    exact ⟨bytes, write_value hlen, rfl⟩
  · rintro ⟨bytes, hwrite, rfl⟩
    exact read_append hw hwrite rest

theorem needsAll (hw : w.width ≤ maxRead) (h : w.write n = .ok bytes) : NeedsAll w.read bytes := by
  have hlen := length_of_write h
  intro q t hqt ht
  have hneeds := needsAll_takeExact (hlen ▸ hw) q t hqt ht
  rw [hlen] at hneeds
  exact hneeds.bind _

theorem findsEnd_nil (hw : w.width ≤ maxRead) (hpos : 0 < w.width) : FindsEnd w.read [] := by
  have htake : FindsEnd (takeExact w.width) [] := findsEnd_takeExact hw hpos
  exact htake.bind _

end Word

/-! ### Forms of a number -/

namespace CompactSize

/-- A number as it is written: as a byte of its own, or as a word after the byte that announces it. -/
inductive Form where
  | narrow (b : UInt8) (h : wideForm? b.toNat = none)
  | wide (b : UInt8) (w : Word) (h : wideForm? b.toNat = some w) (word : Bytes) (sized : word.length = w.width)

theorem wideForm?_eq_some {b : UInt8} {w : Word} (h : wideForm? b.toNat = some w) :
    (b = 0xfd ∧ w = .uint16) ∨ (b = 0xfe ∧ w = .uint32) ∨ (b = 0xff ∧ w = .uint64) := by
  have hbyte : ∀ c : UInt8, (b.toNat : Int) = c.toNat → b = c := fun c hc => UInt8.toNat_inj.mp (Int.ofNat_inj.mp hc)
  unfold wideForm? at h
  split at h
  · exact .inl ⟨hbyte 0xfd ‹_›, (Option.some.inj h).symm⟩
  · split at h
    · exact .inr (.inl ⟨hbyte 0xfe ‹_›, (Option.some.inj h).symm⟩)
    · split at h
      · exact .inr (.inr ⟨hbyte 0xff ‹_›, (Option.some.inj h).symm⟩)
      · cases h

theorem lt_of_wideForm?_eq_none {b : UInt8} (h : wideForm? b.toNat = none) : b.toNat < 0xfd := by
  have hlt := b.toNat_lt
  unfold wideForm? at h
  split at h
  · cases h
  · split at h
    · cases h
    · split at h
      · cases h
      · omega

theorem width_of_wideForm? {b : UInt8} {w : Word} (h : wideForm? b.toNat = some w) : w.width ≤ maxRead := by
  rcases wideForm?_eq_some h with ⟨-, rfl⟩ | ⟨-, rfl⟩ | ⟨-, rfl⟩ <;> decide

theorem value_of_wideForm? {b : UInt8} {w : Word} (h : wideForm? b.toNat = some w) (n : Nat) : w.value n = n := by
  rcases wideForm?_eq_some h with ⟨-, rfl⟩ | ⟨-, rfl⟩ | ⟨-, rfl⟩ <;> simp [Word.value, Word.uint16, Word.uint32, Word.uint64]

theorem byte_read_eq_ok {stream rest : Bytes} {n : Int} :
    Word.byte.read stream = .ok n rest ↔ ∃ b : UInt8, n = b.toNat ∧ stream = b :: rest := by
  constructor
  · intro h
    obtain ⟨bytes, mid, htake, hvalue⟩ := reader_bind_eq_ok.mp h
    obtain ⟨-, hlen, rfl⟩ := takeExact_eq_ok.mp htake
    obtain ⟨b, rfl⟩ := List.length_eq_one_iff.mp hlen
    cases hvalue
    exact ⟨b, by simp [Word.value, Word.byte, Bytes.toNatLE], rfl⟩
  · rintro ⟨b, rfl, rfl⟩
    exact byte_read b rest

theorem length_encode (n : Nat) :
    (encode n).length = if n < 0xfd then 1 else if n < 2 ^ 16 then 3 else if n < 2 ^ 32 then 5 else 9 := by
  unfold encode
  split
  · rfl
  · split
    · simp
    · split <;> simp

namespace Form

def number : Form → Nat
  | narrow b _ => b.toNat
  | wide _ _ _ word _ => word.toNatLE

def bytes : Form → Bytes
  | narrow b _ => [b]
  | wide b _ _ word _ => b :: word

/-- No other form of the number takes fewer bytes. -/
def IsShortest (f : Form) : Prop := ∀ g : Form, g.number = f.number → f.bytes.length ≤ g.bytes.length

theorem reads (f : Form) : Reads read f.number f.bytes := by
  intro rest
  cases f with
  | narrow b h => exact read_narrow h rest
  | wide b w h word sized =>
    have hword := Word.read_append (width_of_wideForm? h) (Word.write_value sized) rest
    rw [value_of_wideForm? h] at hword
    exact read_wide h hword

theorem needsAll (f : Form) : NeedsAll read f.bytes := by
  intro q t hqt ht
  cases q with
  | nil => exact (Word.findsEnd_nil (by decide) (by decide)).bind _
  | cons c q =>
    cases f with
    | narrow b h =>
      obtain ⟨rfl, hrest⟩ := List.cons.inj hqt
      exact absurd (List.append_eq_nil_iff.mp hrest).2 ht
    | wide b w h word sized =>
      obtain ⟨rfl, hrest⟩ := List.cons.inj hqt
      obtain ⟨got, needed, left, hend⟩ := Word.needsAll (width_of_wideForm? h) (Word.write_value sized) q t hrest ht
      refine ⟨got, needed, left, ?_⟩
      unfold read
      simp only [bind, EStateM.bind, byte_read, h, hend]

theorem exists_of_read {stream rest : Bytes} {n : Nat} (h : read stream = .ok n rest) :
    ∃ f : Form, f.number = n ∧ stream = f.bytes ++ rest := by
  obtain ⟨first, mid, hfirst, hform⟩ := reader_bind_eq_ok.mp h
  obtain ⟨b, rfl, rfl⟩ := byte_read_eq_ok.mp hfirst
  cases hwide : wideForm? b.toNat with
  | none =>
    simp only [hwide] at hform
    cases hform
    exact ⟨.narrow b hwide, rfl, rfl⟩
  | some w =>
    simp only [hwide] at hform
    obtain ⟨m, left, hword, hm⟩ := reader_bind_eq_ok.mp hform
    obtain ⟨word, left', htake, hvalue⟩ := reader_bind_eq_ok.mp hword
    obtain ⟨-, sized, rfl⟩ := takeExact_eq_ok.mp htake
    cases hvalue
    cases hm
    refine ⟨.wide b w hwide word sized, ?_, rfl⟩
    rw [value_of_wideForm? hwide, Int.toNat_natCast]
    rfl

theorem exists_eq_encode {n : Nat} (h : n < 2 ^ 64) : ∃ f : Form, f.number = n ∧ f.bytes = encode n := by
  have hwide : ∀ (b : UInt8) (w : Word) (hb : wideForm? b.toNat = some w), n < w.modulus →
      ∃ f : Form, f.number = n ∧ f.bytes = b :: Bytes.ofNatLE w.width n := fun b w hb hn =>
    ⟨.wide b w hb (Bytes.ofNatLE w.width n) (Bytes.length_ofNatLE _ _), Bytes.toNatLE_ofNatLE _ _ hn, rfl⟩
  unfold encode
  split
  · rename_i hlt
    have hbyte : (UInt8.ofNat n).toNat = n := by
      rw [UInt8.toNat_ofNat']
      exact Nat.mod_eq_of_lt (Nat.lt_trans hlt (by decide))
    have hnone : wideForm? (UInt8.ofNat n).toNat = none := by
      rw [hbyte]
      unfold wideForm?
      rw [if_neg (by omega), if_neg (by omega), if_neg (by omega)]
    exact ⟨.narrow (UInt8.ofNat n) hnone, hbyte, rfl⟩
  · split
    · exact hwide 0xfd .uint16 rfl ‹_›
    · split
      · exact hwide 0xfe .uint32 rfl ‹_›
      · exact hwide 0xff .uint64 rfl h

theorem number_lt (f : Form) : f.number < 2 ^ 64 := by
  cases f with
  | narrow b h => exact Nat.lt_trans b.toNat_lt (by decide)
  | wide b w h word sized =>
    have hlt := Bytes.toNatLE_lt word
    rcases wideForm?_eq_some h with ⟨-, rfl⟩ | ⟨-, rfl⟩ | ⟨-, rfl⟩ <;> rw [sized] at hlt
    · exact Nat.lt_trans hlt (by decide)
    · exact Nat.lt_trans hlt (by decide)
    · exact hlt

/-- What `encode` gives is a number's one shortest form. -/
theorem encode_eq_or_length_lt (f : Form) :
    encode f.number = f.bytes ∨ (encode f.number).length < f.bytes.length := by
  cases f with
  | narrow b h =>
    left
    simp [number, bytes, encode, lt_of_wideForm?_eq_none h]
  | wide b w h word sized =>
    have hlt := Bytes.toNatLE_lt word
    have hword := Bytes.ofNatLE_toNatLE word
    rw [sized] at hlt hword
    simp only [number, bytes, List.length_cons, sized]
    rcases wideForm?_eq_some h with ⟨rfl, rfl⟩ | ⟨rfl, rfl⟩ | ⟨rfl, rfl⟩
    · by_cases hsmall : word.toNatLE < 0xfd
      · right
        rw [length_encode, if_pos hsmall]
        decide
      · left
        have hfits : word.toNatLE < 2 ^ 16 := hlt
        rw [encode, if_neg hsmall, if_pos hfits]
        exact congrArg (0xfd :: ·) hword
    · by_cases hsmall : word.toNatLE < 2 ^ 16
      · right
        rw [length_encode, if_pos hsmall]
        split <;> decide
      · left
        have hfits : word.toNatLE < 2 ^ 32 := hlt
        rw [encode, if_neg (by omega), if_neg hsmall, if_pos hfits]
        exact congrArg (0xfe :: ·) hword
    · by_cases hsmall : word.toNatLE < 2 ^ 32
      · right
        rw [length_encode, if_pos hsmall]
        split
        · decide
        · split <;> decide
      · left
        rw [encode, if_neg (by omega), if_neg (by omega), if_neg hsmall]
        exact congrArg (0xff :: ·) hword

theorem length_encode_le (f : Form) : (encode f.number).length ≤ f.bytes.length := by
  rcases f.encode_eq_or_length_lt with heq | hlt
  · exact Nat.le_of_eq (congrArg List.length heq)
  · exact Nat.le_of_lt hlt

theorem isShortest_iff (f : Form) : f.IsShortest ↔ encode f.number = f.bytes := by
  constructor
  · intro h
    obtain ⟨g, hnumber, hbytes⟩ := exists_eq_encode f.number_lt
    have hle := h g hnumber
    rw [hbytes] at hle
    exact f.encode_eq_or_length_lt.resolve_right (Nat.not_lt.mpr hle)
  · intro h g hnumber
    rw [← h, ← hnumber]
    exact g.length_encode_le

end Form

end CompactSize

end SpendScript.Wire
