import SpendScript.Proofs.WireReading

/-! # Codes that tell where they end

What is written of a number, a byte string or a list is read back, whatever follows it (`Wire.Returns`), and nothing that takes
fewer bytes is read as the same value (`Wire.Shortest`). Numbers have these properties by themselves; lists have them if their
elements do (`CompactSize.returns_shortest`). -/

namespace SpendScript.Wire

section
variable {α : Type} {read : Reader α} {write : α → Except Fault Bytes} {items : List α} {parts : List Bytes}

/-- What is written of a value is read back, and whatever follows it is left unread. -/
def Returns (read : Reader α) (write : α → Except Fault Bytes) (a : α) : Prop :=
  ∃ bytes, write a = .ok bytes ∧ Reads read a bytes

/-- Nothing that takes fewer bytes than what is written of a value is read as the value. -/
def Shortest (read : Reader α) (write : α → Except Fault Bytes) : Prop :=
  ∀ ⦃a : α⦄ ⦃bytes stream rest : Bytes⦄, write a = .ok bytes → read stream = .ok a rest →
    bytes.length + rest.length ≤ stream.length

theorem Returns.mapM (h : ∀ a ∈ items, Returns read write a) :
    ∃ parts, items.mapM write = .ok parts ∧ Reads (many read items.length) items parts.flatten := by
  induction items with
  | nil => exact ⟨[], rfl, .pure []⟩
  | cons a items ih =>
    obtain ⟨bytes, hwrite, hread⟩ := h a List.mem_cons_self
    obtain ⟨parts, hparts, hreads⟩ := ih fun a ha => h a (List.mem_cons_of_mem _ ha)
    exact ⟨bytes :: parts, mapM_cons_eq_ok.mpr ⟨bytes, hwrite, parts, hparts, rfl⟩, .bind hread (hreads.map _)⟩

theorem length_of_many {n : Nat} {stream rest : Bytes} (h : many read n stream = .ok items rest) : items.length = n := by
  induction n generalizing stream items with
  | zero =>
    cases h
    rfl
  | succ n ih =>
    obtain ⟨a, mid, -, h⟩ := reader_bind_eq_ok.mp h
    obtain ⟨tail, left, hmany, h⟩ := reader_bind_eq_ok.mp h
    cases h
    exact congrArg (· + 1) (ih hmany)

theorem Shortest.mapM (h : Shortest read write) {stream rest : Bytes} (hparts : items.mapM write = .ok parts)
    (hread : many read items.length stream = .ok items rest) : parts.flatten.length + rest.length ≤ stream.length := by
  induction items generalizing parts stream with
  | nil =>
    cases hparts
    cases hread
    simp
  | cons a items ih =>
    obtain ⟨bytes, hwrite, parts', hparts', rfl⟩ := mapM_cons_eq_ok.mp hparts
    obtain ⟨b, mid, hone, hread⟩ := reader_bind_eq_ok.mp hread
    obtain ⟨tail, left, hmany, hread⟩ := reader_bind_eq_ok.mp hread
    cases hread
    have hfirst := h hwrite hone
    have hrest := ih hparts' hmany
    rw [List.flatten_cons, List.length_append]
    omega

end

namespace CompactSize

/-- A refused value stays one if its message cannot be written. -/
theorem isA_badValue_reported {f : Fault} (h : f.faultClass.isA .badValue = true) :
    f.reported.faultClass.isA .badValue = true := by
  rcases f.reported_cases with hf | hf
  · rwa [hf]
  · rw [hf]
    rfl

theorem write_error_iff (n : Int) :
    (∃ f, write n = .error f ∧ f.faultClass.isA .badValue = true) ↔ n < 0 ∨ 2 ^ 64 ≤ n := by
  have hrange : (n < 0 ∨ 2 ^ 64 ≤ n) ↔ ¬(0 ≤ n ∧ n < 2 ^ 64) := by omega
  rw [hrange]
  constructor
  · rintro ⟨f, hwrite, -⟩ hn
    unfold write at hwrite
    rw [if_pos hn] at hwrite
    cases hwrite
  · intro hn
    exact ⟨_, if_neg hn, isA_badValue_reported rfl⟩

theorem returns {n : Nat} (h : n < 2 ^ 64) : Returns read (fun n : Nat => write n) n :=
  have hwrite := write_eq_ok.mpr ⟨h, rfl⟩
  ⟨_, hwrite, read_append hwrite⟩

theorem shortest : Shortest read (fun n : Nat => write n) := by
  intro n bytes stream rest hwrite hread
  obtain ⟨-, rfl⟩ := write_eq_ok.mp hwrite
  obtain ⟨f, rfl, rfl⟩ := Form.exists_of_read hread
  have hle := f.length_encode_le
  rw [List.length_append]
  omega

theorem returns_bytes {data : Bytes} (h : data.length < 2 ^ 63) : Returns readBytes writeBytes data := by
  obtain ⟨size, hsize, hread⟩ := returns (Nat.lt_trans h (by decide))
  refine ⟨_, writeBytes_eq_ok.mpr ⟨size, hsize, rfl⟩, .bind hread fun rest => ?_⟩
  exact takeExact_append (Nat.le_sub_one_of_lt h)

theorem shortest_bytes : Shortest readBytes writeBytes := by
  intro data bytes stream rest hwrite hread
  obtain ⟨size, hsize, rfl⟩ := writeBytes_eq_ok.mp hwrite
  obtain ⟨n, mid, hcount, hdata⟩ := reader_bind_eq_ok.mp hread
  obtain ⟨-, rfl, rfl⟩ := takeExact_eq_ok.mp hdata
  have hle := shortest hsize hcount
  rw [List.length_append] at hle ⊢
  omega

section
variable {α : Type} {one : Reader α} {writeOne : α → Except Fault Bytes} {items : List α}

theorem returns_list (hlen : items.length < 2 ^ 64) (h : ∀ a ∈ items, Returns one writeOne a) :
    Returns (readList one) (writeList writeOne) items := by
  obtain ⟨count, hcount, hread⟩ := returns hlen
  obtain ⟨parts, hparts, hitems⟩ := Returns.mapM h
  exact ⟨_, writeList_eq_ok.mpr ⟨count, hcount, parts, hparts, rfl⟩, .bind hread hitems⟩

theorem shortest_list (h : Shortest one writeOne) : Shortest (readList one) (writeList writeOne) := by
  intro items bytes stream rest hwrite hread
  obtain ⟨count, hcount, parts, hparts, rfl⟩ := writeList_eq_ok.mp hwrite
  obtain ⟨n, mid, hsize, hitems⟩ := reader_bind_eq_ok.mp hread
  obtain rfl := length_of_many hitems
  have hfirst := shortest hcount hsize
  have hrest := h.mapM hparts hitems
  rw [List.length_append]
  omega

end

/-- Numbers below 2^64 and no others are written, and read back from the shortest bytes that are read as them. Byte strings are
    read back too, and lists as far as their elements are. -/
theorem returns_shortest :
    (∀ n : Int, (∃ f, write n = .error f ∧ f.faultClass.isA .badValue = true) ↔ n < 0 ∨ 2 ^ 64 ≤ n) ∧
    (∀ n : Nat, n < 2 ^ 64 → Returns read (fun n : Nat => write n) n) ∧ Shortest read (fun n : Nat => write n) ∧
    (∀ data : Bytes, data.length < 2 ^ 63 → Returns readBytes writeBytes data) ∧ Shortest readBytes writeBytes ∧
    ∀ (α : Type) (one : Reader α) (writeOne : α → Except Fault Bytes),
      (∀ items : List α, items.length < 2 ^ 64 → (∀ a ∈ items, Returns one writeOne a) →
        Returns (readList one) (writeList writeOne) items) ∧
      (Shortest one writeOne → Shortest (readList one) (writeList writeOne)) :=
  ⟨write_error_iff, fun _ => returns, shortest, fun _ => returns_bytes, shortest_bytes,
    fun _ _ _ => ⟨fun _ => returns_list, shortest_list⟩⟩

/-- A list of byte strings, whose elements are numbers of bytes on either side of the first wide form. -/
theorem returns_shortest_nested : Returns (readList readBytes) (writeList writeBytes)
    [List.replicate 0xfc 1, List.replicate 0xfd 2] := by
  refine (returns_shortest.2.2.2.2.2 Bytes readBytes writeBytes).1 _ (by decide) fun data hdata => ?_
  rcases List.mem_cons.mp hdata with rfl | hdata
  · exact returns_shortest.2.2.2.1 _ (by rw [List.length_replicate]; decide)
  · rw [List.mem_singleton.mp hdata]
    exact returns_shortest.2.2.2.1 _ (by rw [List.length_replicate]; decide)

end CompactSize

end SpendScript.Wire
