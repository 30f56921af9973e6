import SpendScript.Proofs.Commitments
import SpendScript.Proofs.WireReading

/-! # Spellings of transactions

The counts and lengths in the bytes of a transaction are read in any of their forms, so a transaction has many spellings
(`Tx.Spelt`). What is read from a stream is spelt by the bytes that are taken from it, and nothing is read where some of
them are missing (`Tx.coded`). A transaction is written in the spelling whose forms are all the shortest: reading undoes
writing (`Tx.read_toBytes`), and writing what was read gives bytes that are shorter unless all forms were the shortest
already (`Tx.toBytes_of_read`). -/

namespace SpendScript

namespace Wire.CompactSize

/-- Of bytes with some sizes in them, those that have each size in its shortest form. -/
structure Shortens (sizes : List Form) (p u : Bytes) : Prop where
  length_le : u.length ≤ p.length
  eq_iff : u = p ↔ ∀ f ∈ sizes, f.IsShortest

theorem Shortens.refl (p : Bytes) : Shortens [] p p where
  length_le := Nat.le_refl _
  eq_iff := by simp

theorem Shortens.append {sizes sizes' : List Form} {p p' u u' : Bytes} (h : Shortens sizes p u)
    (h' : Shortens sizes' p' u') : Shortens (sizes ++ sizes') (p ++ p') (u ++ u') where
  length_le := by
    rw [List.length_append, List.length_append]
    exact Nat.add_le_add h.length_le h'.length_le
  eq_iff := by
    rw [List.forall_mem_append, ← h.eq_iff, ← h'.eq_iff]
    constructor
    · intro heq
      have hlen := congrArg List.length heq
      rw [List.length_append, List.length_append] at hlen
      have hle := h.length_le
      have hle' := h'.length_le
      exact List.append_inj heq (by omega)
    · rintro ⟨rfl, rfl⟩
      rfl

theorem Shortens.append_left {sizes : List Form} {p u : Bytes} (h : Shortens sizes p u) (l : Bytes) :
    Shortens sizes (l ++ p) (l ++ u) :=
  (Shortens.refl l).append h

theorem Shortens.append_right {sizes : List Form} {p u : Bytes} (h : Shortens sizes p u) (r : Bytes) :
    Shortens sizes (p ++ r) (u ++ r) := by
  have happend := h.append (.refl r)
  rwa [List.append_nil] at happend

theorem Form.shortens (f : Form) : Shortens [f] f.bytes (encode f.number) where
  length_le := f.length_encode_le
  eq_iff := by
    rw [← f.isShortest_iff]
    simp

/-- Whatever form a number was read in, it is written in its shortest one. -/
theorem Form.exists_written (f : Form) :
    ∃ g : Form, g.number = f.number ∧ write f.number = .ok g.bytes ∧ Shortens [f] f.bytes g.bytes := by
  obtain ⟨g, hnumber, hbytes⟩ := exists_eq_encode f.number_lt
  refine ⟨g, hnumber, write_eq_ok.mpr ⟨f.number_lt, hbytes.symm⟩, ?_⟩
  rw [hbytes]
  exact f.shortens

/-! ### Byte strings and lists -/

/-- The ways to write a byte string: its length in some form, and its bytes. -/
inductive SpeltBytes : Bytes → List Form → Bytes → Prop
  | intro {data : Bytes} (f : Form) (size : f.number = data.length) (bound : data.length ≤ maxRead) :
    SpeltBytes data [f] (f.bytes ++ data)

section
variable {α : Type}

inductive SpeltItems (Spelt : α → List Form → Bytes → Prop) : List α → List Form → Bytes → Prop
  | nil : SpeltItems Spelt [] [] []
  | cons {a : α} {items : List α} {sizes sizes' : List Form} {p p' : Bytes} (head : Spelt a sizes p)
    (tail : SpeltItems Spelt items sizes' p') : SpeltItems Spelt (a :: items) (sizes ++ sizes') (p ++ p')

theorem SpeltItems.forall {Spelt : α → List Form → Bytes → Prop} {P : α → Prop} {items : List α} {sizes : List Form}
    {p : Bytes} (h : SpeltItems Spelt items sizes p) (hone : ∀ a sizes p, Spelt a sizes p → P a) : ∀ a ∈ items, P a := by
  induction h with
  | nil => exact fun a ha => (nomatch ha)
  | cons head tail ih => exact List.forall_mem_cons.mpr ⟨hone _ _ _ head, ih⟩

/-- The ways to write a list: its count in some form, and each item in one of its ways. -/
inductive SpeltList (Spelt : α → List Form → Bytes → Prop) : List α → List Form → Bytes → Prop
  | intro {items : List α} {sizes : List Form} {p : Bytes} (f : Form) (count : f.number = items.length)
    (each : SpeltItems Spelt items sizes p) : SpeltList Spelt items ([f] ++ sizes) (f.bytes ++ p)

/-- What is read of a kind is what its spellings are for, and writing picks the shortest one. -/
structure Coded (read : Reader α) (write : α → Except Fault Bytes) (Spelt : α → List Form → Bytes → Prop) : Prop where
  spelt_of_read : ∀ {stream rest : Bytes} {a : α}, read stream = .ok a rest →
    ∃ sizes p, Spelt a sizes p ∧ stream = p ++ rest
  reads : ∀ {a : α} {sizes : List Form} {p : Bytes}, Spelt a sizes p → Reads read a p
  needsAll : ∀ {a : α} {sizes : List Form} {p : Bytes}, Spelt a sizes p → NeedsAll read p
  written : ∀ {a : α} {sizes : List Form} {p : Bytes}, Spelt a sizes p →
    ∃ u, write a = .ok u ∧ Shortens sizes p u ∧ ∃ shortest, Spelt a shortest u

end

theorem coded_bytes : Coded readBytes writeBytes SpeltBytes where
  spelt_of_read := by
    intro stream rest data h
    obtain ⟨n, mid, hsize, hdata⟩ := reader_bind_eq_ok.mp h
    obtain ⟨f, rfl, rfl⟩ := Form.exists_of_read hsize
    obtain ⟨hbound, hlen, rfl⟩ := takeExact_eq_ok.mp hdata
    exact ⟨_, _, .intro f hlen.symm (hlen ▸ hbound), (List.append_assoc _ _ _).symm⟩
  reads := by
    rintro data sizes p ⟨f, size, bound⟩
    exact f.reads.bind fun rest => size ▸ takeExact_append bound
  needsAll := by
    rintro data sizes p ⟨f, size, bound⟩
    refine .bind f.reads f.needsAll ?_
    rw [size]
    exact needsAll_takeExact bound
  written := by
    rintro data sizes p ⟨f, size, bound⟩
    obtain ⟨g, hnumber, hwrite, hshort⟩ := f.exists_written
    rw [size] at hwrite
    exact ⟨_, writeBytes_eq_ok.mpr ⟨_, hwrite, rfl⟩, hshort.append_right data, _, .intro g (hnumber.trans size) bound⟩

section
variable {α : Type} {read : Reader α} {write : α → Except Fault Bytes} {Spelt : α → List Form → Bytes → Prop}

theorem spelt_of_many (hcoded : Coded read write Spelt) {n : Nat} {stream rest : Bytes} {items : List α}
    (h : many read n stream = .ok items rest) :
    ∃ sizes p, SpeltItems Spelt items sizes p ∧ items.length = n ∧ stream = p ++ rest := by
  induction n generalizing stream items with
  | zero =>
    cases h
    exact ⟨[], [], .nil, rfl, rfl⟩
  | succ n ih =>
    obtain ⟨a, mid, hread, h⟩ := reader_bind_eq_ok.mp h
    obtain ⟨tail, left, hmany, h⟩ := reader_bind_eq_ok.mp h
    cases h
    obtain ⟨sizes, p, hhead, rfl⟩ := hcoded.spelt_of_read hread
    obtain ⟨sizes', p', htail, rfl, rfl⟩ := ih hmany
    exact ⟨_, _, .cons hhead htail, rfl, (List.append_assoc _ _ _).symm⟩

theorem reads_many (hcoded : Coded read write Spelt) {items : List α} {sizes : List Form} {p : Bytes}
    (h : SpeltItems Spelt items sizes p) : Reads (many read items.length) items p := by
  induction h with
  | nil => exact .pure []
  | cons head tail ih => exact .bind (hcoded.reads head) (ih.map _)

theorem needsAll_many (hcoded : Coded read write Spelt) {items : List α} {sizes : List Form} {p : Bytes}
    (h : SpeltItems Spelt items sizes p) : NeedsAll (many read items.length) p := by
  induction h with
  | nil => exact .pure []
  | cons head tail ih => exact .bind (hcoded.reads head) (hcoded.needsAll head) (ih.map _)

theorem written_items (hcoded : Coded read write Spelt) {items : List α} {sizes : List Form} {p : Bytes}
    (h : SpeltItems Spelt items sizes p) : ∃ parts, items.mapM write = .ok parts ∧ Shortens sizes p parts.flatten ∧
      ∃ shortest, SpeltItems Spelt items shortest parts.flatten := by
  induction h with
  | nil => exact ⟨[], rfl, .refl [], [], .nil⟩
  | cons head tail ih =>
    obtain ⟨u, hwrite, hshort, _, hspelt⟩ := hcoded.written head
    obtain ⟨parts, hparts, hshorts, _, hspelts⟩ := ih
    exact ⟨u :: parts, mapM_cons_eq_ok.mpr ⟨u, hwrite, parts, hparts, rfl⟩, hshort.append hshorts, _, .cons hspelt hspelts⟩

theorem Coded.list (hcoded : Coded read write Spelt) : Coded (readList read) (writeList write) (SpeltList Spelt) where
  spelt_of_read := by
    intro stream rest items h
    obtain ⟨n, mid, hcount, hitems⟩ := reader_bind_eq_ok.mp h
    obtain ⟨f, rfl, rfl⟩ := Form.exists_of_read hcount
    obtain ⟨sizes, p, hspelt, hlen, rfl⟩ := spelt_of_many hcoded hitems
    exact ⟨_, _, .intro f hlen.symm hspelt, (List.append_assoc _ _ _).symm⟩
  reads := by
    rintro items sizes p ⟨f, count, each⟩
    refine f.reads.bind ?_
    rw [count]
    exact reads_many hcoded each
  needsAll := by
    rintro items sizes p ⟨f, count, each⟩
    refine .bind f.reads f.needsAll ?_
    rw [count]
    exact needsAll_many hcoded each
  written := by
    rintro items sizes p ⟨f, count, each⟩
    obtain ⟨g, hnumber, hwrite, hcount⟩ := f.exists_written
    obtain ⟨parts, hparts, hitems, _, hspelt⟩ := written_items hcoded each
    rw [count] at hwrite
    exact ⟨_, writeList_eq_ok.mpr ⟨_, hwrite, parts, hparts, rfl⟩, hcount.append hitems, _,
      .intro g (hnumber.trans count) hspelt⟩

end

end Wire.CompactSize

open Wire CompactSize

/-! ### Transactions -/

inductive TxInput.Spelt : TxInput → List Form → Bytes → Prop
  | intro {a : TxInput} {sizes : List Form} {index unlock sequence : Bytes} (hash : a.prevHash.length = 32)
    (prevIndex : Word.uint32.write a.prevIndex = .ok index) (script : SpeltBytes a.unlock sizes unlock)
    (last : Word.uint32.write a.sequence = .ok sequence) : Spelt a sizes (a.prevHash ++ index ++ unlock ++ sequence)

inductive TxOutput.Spelt : TxOutput → List Form → Bytes → Prop
  | intro {o : TxOutput} {sizes : List Form} {value lock : Bytes} (amount : Word.int64.write o.value = .ok value)
    (script : SpeltBytes o.lock sizes lock) : Spelt o sizes (value ++ lock)

/-- The ways to write a transaction, with the forms of the counts and lengths in them, in order. -/
inductive Tx.Spelt : Tx → List Form → Bytes → Prop
  | intro {tx : Tx} {inputSizes outputSizes : List Form} {version inputs outputs locktime : Bytes}
    (first : Word.int32.write tx.version = .ok version) (spent : SpeltList TxInput.Spelt tx.inputs inputSizes inputs)
    (created : SpeltList TxOutput.Spelt tx.outputs outputSizes outputs)
    (last : Word.uint32.write tx.locktime = .ok locktime) :
    Spelt tx (inputSizes ++ outputSizes) (version ++ inputs ++ outputs ++ locktime)

/-- The hash is complete, as the index was read after it. -/
theorem TxInput.length_prevHash {n : Int} {stream hash mid rest : Bytes} (hhash : take 32 stream = .ok hash mid)
    (hindex : Word.uint32.read mid = .ok n rest) : hash.length = 32 ∧ stream = hash ++ mid := by
  obtain ⟨-, rfl, rfl⟩ := take_eq_ok.mp hhash
  obtain ⟨index, hwrite, heq⟩ := (Word.read_eq_ok Word.width_uint32).mp hindex
  have hlen := congrArg List.length heq
  rw [List.length_append, Word.length_of_write hwrite, List.length_drop] at hlen
  change stream.length - 32 = 4 + rest.length at hlen
  refine ⟨?_, (List.take_append_drop 32 stream).symm⟩
  rw [List.length_take]
  omega

theorem TxInput.coded : Coded TxInput.read TxInput.toBytes TxInput.Spelt where
  spelt_of_read := by
    intro stream rest a h
    obtain ⟨hash, _, hhash, hread⟩ := reader_bind_eq_ok.mp h
    obtain ⟨prevIndex, _, hindex, hread⟩ := reader_bind_eq_ok.mp hread
    obtain ⟨unlock, _, hunlock, hread⟩ := reader_bind_eq_ok.mp hread
    obtain ⟨sequence, _, hsequence, hread⟩ := reader_bind_eq_ok.mp hread
    cases hread
    obtain ⟨hlen, rfl⟩ := length_prevHash hhash hindex
    obtain ⟨index, hindexBytes, rfl⟩ := (Word.read_eq_ok Word.width_uint32).mp hindex
    obtain ⟨sizes, script, hscript, rfl⟩ := coded_bytes.spelt_of_read hunlock
    obtain ⟨last, hlast, rfl⟩ := (Word.read_eq_ok Word.width_uint32).mp hsequence
    exact ⟨sizes, _, .intro hlen hindexBytes hscript hlast, by simp only [List.append_assoc]⟩
  reads := by
    rintro a sizes p ⟨hash, index, script, last⟩
    simp only [List.append_assoc]
    have htake : Reads (take 32) a.prevHash a.prevHash := fun rest => hash ▸ take_append (hash ▸ by decide)
    exact htake.bind (.bind (Word.read_append Word.width_uint32 index) (.bind (coded_bytes.reads script)
      (.map (Word.read_append Word.width_uint32 last) _)))
  needsAll := by
    rintro a sizes p ⟨hash, index, script, last⟩
    simp only [List.append_assoc]
    refine .take_bind hash (by decide) (fun q => (Word.findsEnd_nil Word.width_uint32 (by decide)).bind _) ?_
    exact .bind (Word.read_append Word.width_uint32 index) (Word.needsAll Word.width_uint32 index)
      (.bind (coded_bytes.reads script) (coded_bytes.needsAll script) (.map (Word.needsAll Word.width_uint32 last) _))
  written := by
    rintro a sizes p ⟨hash, index, script, last⟩
    obtain ⟨u, hunlock, hshort, _, hspelt⟩ := coded_bytes.written script
    refine ⟨_, toBytes_eq_ok.mpr ⟨_, index, u, hunlock, _, last, rfl⟩, ?_, _, .intro hash index hspelt last⟩
    exact (hshort.append_left _).append_right _

theorem TxOutput.coded : Coded TxOutput.read TxOutput.toBytes TxOutput.Spelt where
  spelt_of_read := by
    intro stream rest o h
    obtain ⟨value, _, hvalue, hread⟩ := reader_bind_eq_ok.mp h
    obtain ⟨lock, _, hlock, hread⟩ := reader_bind_eq_ok.mp hread
    cases hread
    obtain ⟨amount, hamount, rfl⟩ := (Word.read_eq_ok Word.width_int64).mp hvalue
    obtain ⟨sizes, script, hscript, rfl⟩ := coded_bytes.spelt_of_read hlock
    exact ⟨sizes, _, .intro hamount hscript, by simp only [List.append_assoc]⟩
  reads := by
    rintro o sizes p ⟨amount, script⟩
    exact .bind (Word.read_append Word.width_int64 amount) (.map (coded_bytes.reads script) _)
  needsAll := by
    rintro o sizes p ⟨amount, script⟩
    exact .bind (Word.read_append Word.width_int64 amount) (Word.needsAll Word.width_int64 amount)
      (.map (coded_bytes.needsAll script) _)
  written := by
    rintro o sizes p ⟨amount, script⟩
    obtain ⟨u, hlock, hshort, _, hspelt⟩ := coded_bytes.written script
    exact ⟨_, toBytes_eq_ok.mpr ⟨_, amount, u, hlock, rfl⟩, hshort.append_left _, _, .intro amount hspelt⟩

theorem Tx.coded : Coded Tx.read Tx.toBytes Tx.Spelt where
  spelt_of_read := by
    intro stream rest tx h
    obtain ⟨version, _, hversion, hread⟩ := reader_bind_eq_ok.mp h
    obtain ⟨inputs, _, hinputs, hread⟩ := reader_bind_eq_ok.mp hread
    obtain ⟨outputs, _, houtputs, hread⟩ := reader_bind_eq_ok.mp hread
    obtain ⟨locktime, _, hlocktime, hread⟩ := reader_bind_eq_ok.mp hread
    cases hread
    obtain ⟨first, hfirst, rfl⟩ := (Word.read_eq_ok Word.width_int32).mp hversion
    obtain ⟨_, spent, hspent, rfl⟩ := TxInput.coded.list.spelt_of_read hinputs
    obtain ⟨_, created, hcreated, rfl⟩ := TxOutput.coded.list.spelt_of_read houtputs
    obtain ⟨last, hlast, rfl⟩ := (Word.read_eq_ok Word.width_uint32).mp hlocktime
    exact ⟨_, _, .intro hfirst hspent hcreated hlast, by simp only [List.append_assoc]⟩
  reads := by
    rintro tx sizes p ⟨first, spent, created, last⟩
    simp only [List.append_assoc]
    exact .bind (Word.read_append Word.width_int32 first) (.bind (TxInput.coded.list.reads spent)
      (.bind (TxOutput.coded.list.reads created) (.map (Word.read_append Word.width_uint32 last) _)))
  needsAll := by
    rintro tx sizes p ⟨first, spent, created, last⟩
    simp only [List.append_assoc]
    exact .bind (Word.read_append Word.width_int32 first) (Word.needsAll Word.width_int32 first)
      (.bind (TxInput.coded.list.reads spent) (TxInput.coded.list.needsAll spent)
        (.bind (TxOutput.coded.list.reads created) (TxOutput.coded.list.needsAll created)
          (.map (Word.needsAll Word.width_uint32 last) _)))
  written := by
    rintro tx sizes p ⟨first, spent, created, last⟩
    obtain ⟨u, hinputs, hshortIn, _, hspeltIn⟩ := TxInput.coded.list.written spent
    obtain ⟨v, houtputs, hshortOut, _, hspeltOut⟩ := TxOutput.coded.list.written created
    refine ⟨_, toBytes_eq_ok.mpr ⟨_, first, u, hinputs, v, houtputs, _, last, rfl⟩, ?_, _,
      .intro first hspeltIn hspeltOut last⟩
    exact ((hshortIn.append_left _).append hshortOut).append_right _

/-! ### Reading what was written, and writing what was read -/

section
variable {α : Type} {Spelt : α → List Form → Bytes → Prop}

theorem exists_speltBytes {data : Bytes} (h : data.length < 2 ^ 63) : ∃ sizes p, SpeltBytes data sizes p := by
  obtain ⟨f, hnumber, -⟩ := Form.exists_eq_encode (Nat.lt_trans h (by decide))
  exact ⟨_, _, .intro f hnumber (Nat.le_sub_one_of_lt h)⟩

theorem exists_speltItems {items : List α} (h : ∀ a ∈ items, ∃ sizes p, Spelt a sizes p) :
    ∃ sizes p, SpeltItems Spelt items sizes p := by
  induction items with
  | nil => exact ⟨_, _, .nil⟩
  | cons a items ih =>
    obtain ⟨_, _, hhead⟩ := h a List.mem_cons_self
    obtain ⟨_, _, htail⟩ := ih fun a ha => h a (List.mem_cons_of_mem _ ha)
    exact ⟨_, _, .cons hhead htail⟩

theorem exists_speltList {items : List α} (hlen : items.length < 2 ^ 63) (h : ∀ a ∈ items, ∃ sizes p, Spelt a sizes p) :
    ∃ sizes p, SpeltList Spelt items sizes p := by
  obtain ⟨f, hnumber, -⟩ := Form.exists_eq_encode (Nat.lt_trans hlen (by decide))
  obtain ⟨_, _, heach⟩ := exists_speltItems h
  exact ⟨_, _, .intro f hnumber heach⟩

end

theorem TxInput.OnWire.exists_spelt {a : TxInput} (h : a.OnWire) : ∃ sizes p, a.Spelt sizes p := by
  obtain ⟨_, hindex⟩ := Word.exists_write h.prevIndex
  obtain ⟨_, _, hscript⟩ := exists_speltBytes h.unlock
  obtain ⟨_, hsequence⟩ := Word.exists_write h.sequence
  exact ⟨_, _, .intro h.prevHash hindex hscript hsequence⟩

theorem TxOutput.OnWire.exists_spelt {o : TxOutput} (h : o.OnWire) : ∃ sizes p, o.Spelt sizes p := by
  obtain ⟨_, hvalue⟩ := Word.exists_write h.value
  obtain ⟨_, _, hscript⟩ := exists_speltBytes h.lock
  exact ⟨_, _, .intro hvalue hscript⟩

namespace Tx

theorem OnWire.exists_spelt {tx : Tx} (h : tx.OnWire) : ∃ sizes p, tx.Spelt sizes p := by
  obtain ⟨_, hversion⟩ := Word.exists_write h.version
  obtain ⟨_, _, hinputs⟩ := exists_speltList h.inputCount fun a ha => (h.inputs a ha).exists_spelt
  obtain ⟨_, _, houtputs⟩ := exists_speltList h.outputCount fun o ho => (h.outputs o ho).exists_spelt
  obtain ⟨_, hlocktime⟩ := Word.exists_write h.locktime
  exact ⟨_, _, .intro hversion hinputs houtputs hlocktime⟩

theorem ofBytes_eq_ok {bytes : Bytes} {tx : Tx} : ofBytes bytes = .ok tx ↔ ∃ rest, read bytes = .ok tx rest := by
  unfold ofBytes Reader.value
  cases read bytes with
  | ok a rest => simp
  | error f rest => simp

theorem ofBytes_of_findsEnd {bytes : Bytes} (h : FindsEnd read bytes) :
    ∃ got needed, ofBytes bytes = .error (.streamEnded got needed) := by
  obtain ⟨got, needed, rest, h⟩ := h
  refine ⟨got, needed, ?_⟩
  unfold ofBytes Reader.value
  rw [h]

theorem Spelt.length_prevHash {tx : Tx} {sizes : List Form} {p : Bytes} (h : tx.Spelt sizes p) :
    ∀ a ∈ tx.inputs, a.prevHash.length = 32 := by
  obtain ⟨-, ⟨_, -, each⟩, -, -⟩ := h
  refine each.forall ?_
  rintro a sizes p ⟨hash, -, -, -⟩
  exact hash

/-- A transaction is read back from its bytes, whatever follows them; on every proper first part of them the stream is found
    ended. -/
theorem read_toBytes {tx : Tx} (h : tx.OnWire) : ∃ bytes, tx.toBytes = .ok bytes ∧
    (∀ rest, read (bytes ++ rest) = .ok tx rest) ∧
      ∀ q, q <+: bytes → q ≠ bytes → ∃ got needed, ofBytes q = .error (.streamEnded got needed) := by
  obtain ⟨_, _, hspelt⟩ := h.exists_spelt
  obtain ⟨bytes, hwrite, -, _, hshortest⟩ := coded.written hspelt
  refine ⟨bytes, hwrite, coded.reads hshortest, ?_⟩
  rintro q ⟨t, ht⟩ hne
  refine ofBytes_of_findsEnd (coded.needsAll hshortest q t ht ?_)
  rintro rfl
  exact hne (ht ▸ (List.append_nil q).symm)

theorem read_toBytes_twoByTwo : ∃ bytes, twoByTwo.toBytes = .ok bytes ∧
    (∀ rest, read (bytes ++ rest) = .ok twoByTwo rest) ∧
      ∀ q, q <+: bytes → q ≠ bytes → ∃ got needed, ofBytes q = .error (.streamEnded got needed) :=
  read_toBytes onWire_twoByTwo

/-- What was read of a transaction is written in the shortest forms. -/
theorem toBytes_of_read {stream : Bytes} {tx : Tx} (h : ofBytes stream = .ok tx) :
    ∃ p rest bytes, stream = p ++ rest ∧ read stream = .ok tx rest ∧ (∀ a ∈ tx.inputs, a.prevHash.length = 32) ∧
      tx.toBytes = .ok bytes ∧ ofBytes bytes = .ok tx ∧ bytes.length ≤ p.length ∧
      (∃ sizes, tx.Spelt sizes p) ∧ ∀ sizes, tx.Spelt sizes p → (bytes = p ↔ ∀ f ∈ sizes, f.IsShortest) := by
  obtain ⟨rest, hread⟩ := ofBytes_eq_ok.mp h
  obtain ⟨sizes, p, hspelt, hstream⟩ := coded.spelt_of_read hread
  obtain ⟨bytes, hwrite, hshort, _, hshortest⟩ := coded.written hspelt
  have hback : read bytes = .ok tx [] := by simpa using coded.reads hshortest []
  refine ⟨p, rest, bytes, hstream, hread, hspelt.length_prevHash, hwrite, ofBytes_eq_ok.mpr ⟨[], hback⟩, hshort.length_le,
    ⟨sizes, hspelt⟩, ?_⟩
  intro sizes' hspelt'
  obtain ⟨bytes', hwrite', hshort', -⟩ := coded.written hspelt'
  rw [hwrite] at hwrite'
  cases hwrite'
  exact hshort'.eq_iff

/-- One input whose count and whose script's length are in longer forms than they need, and a byte that is left. -/
def longForms : Bytes :=
  [1, 0, 0, 0] ++ [0xfd, 1, 0] ++ List.replicate 32 7 ++ [0, 0, 0, 0] ++ [0xfe, 1, 0, 0, 0] ++ [0x51] ++
    [0xff, 0xff, 0xff, 0xff] ++ [0] ++ [0, 0, 0, 0] ++ [0xee]

theorem toBytes_of_read_longForms : ∃ tx, ofBytes longForms = .ok tx ∧
    ∃ p rest bytes, longForms = p ++ rest ∧ read longForms = .ok tx rest ∧ (∀ a ∈ tx.inputs, a.prevHash.length = 32) ∧
      tx.toBytes = .ok bytes ∧ ofBytes bytes = .ok tx ∧ bytes.length ≤ p.length ∧
      (∃ sizes, tx.Spelt sizes p) ∧ ∀ sizes, tx.Spelt sizes p → (bytes = p ↔ ∀ f ∈ sizes, f.IsShortest) :=
  ⟨⟨1, [⟨List.replicate 32 7, 0, [0x51], 0xffffffff⟩], [], 0⟩, rfl, toBytes_of_read rfl⟩

end Tx

end SpendScript
