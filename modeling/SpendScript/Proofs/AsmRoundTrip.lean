import SpendScript.Proofs.CanonicalPush
import SpendScript.Proofs.NumberBytes
import SpendScript.Proofs.ShownText

/-! # Scripts that their words give back

A script that is shown as words is read back from them exactly if it reads to its end and each of its operations is the one
that its own word is read as (`ofAsm_toAsm_iff`). An opcode without a name is lost, as is every push that is not the shortest of
its item. Items are shown as numbers up to four bytes and in hexadecimal beyond, but read as numbers wherever the digits are
decimal ones, so that some longer items are lost too (`ReadsAsNumber`). Words are read as whole operations, and operations are
told apart by their bytes; so two lost words never make up for each other. -/

namespace SpendScript

open Text

/-! ### Names of opcodes -/

namespace Opcode

/-- The words that opcodes without a name are shown as. -/
def nameless : List Text := ["OP_UNKNOWN", "OP_INVALIDOPCODE"].map ofString

def names : List Text := table.map fun entry => ofString entry.1

/-- The code points of a text as the digits of one number, by which texts are told apart at once. -/
def rank (t : Text) : Nat := t.foldl (fun n c => 0x110000 * n + c.val) 0

theorem names_checked : ((nameless ++ names).map rank).Nodup ∧
    (nameless ++ names).all (fun w => Script.isName w && decide (IsWord w)) = true := by
  decide +kernel

theorem nodup_names : (nameless ++ names).Nodup :=
  List.Pairwise.of_map rank (fun _ _ hne heq => hne (congrArg rank heq)) names_checked.1

theorem isName_of_mem {w : Text} (h : w ∈ nameless ++ names) : Script.isName w = true ∧ IsWord w := by
  simpa using List.all_eq_true.mp names_checked.2 w h

/-- An entry is found by its name where no two entries have the same. -/
theorem find?_name {entries : List (String × Opcode)} (h : (entries.map fun entry => ofString entry.1).Nodup)
    {entry : String × Opcode} (hmem : entry ∈ entries) :
    entries.find? (fun other => ofString other.1 == ofString entry.1) = some entry := by
  induction entries with
  | nil => cases hmem
  | cons first entries ih =>
    obtain ⟨hfirst, hrest⟩ := List.nodup_cons.mp h
    rcases List.mem_cons.mp hmem with rfl | hmem
    · simp
    · have hne : ofString first.1 ≠ ofString entry.1 := by
        intro heq
        exact hfirst (List.mem_map.mpr ⟨entry, hmem, heq.symm⟩)
      rw [List.find?_cons_of_neg (by simpa using hne)]
      exact ih hrest hmem

theorem ofName?_of_mem {name : String} {op : Opcode} (h : (name, op) ∈ table) : ofName? name = some op := by
  have hfind := find?_name (List.nodup_append.mp nodup_names).2.1 h
  unfold ofName?
  rw [hfind]
  rfl

theorem ofName?_nameless {w : Text} (h : w ∈ nameless) : ofName? w = none := by
  have hnone : table.find? (fun entry => ofString entry.1 == w) = none := by
    refine List.find?_eq_none.mpr fun entry hentry heq => ?_
    have hsame : ofString entry.1 = w := by simpa using heq
    exact (List.nodup_append.mp nodup_names).2.2 w h _ (List.mem_map.mpr ⟨entry, hentry, rfl⟩) hsame.symm
  unfold ofName?
  rw [hnone]
  rfl

/-- Whether an opcode has a name. -/
def IsNamed (op : Opcode) : Prop := ∃ name, (name, op) ∈ table

theorem ofInt?_toNat (op : Opcode) : ofInt? op.toNat = (table.find? (·.2 == op)).map (·.2) := by
  have hsame : (fun entry : String × Opcode => (entry.2.toNat : Int) == (op.toNat : Int)) = (·.2 == op) := by
    funext entry
    rw [Bool.eq_iff_iff, beq_iff_eq, beq_iff_eq, Int.ofNat_inj, UInt8.toNat_inj]
  unfold ofInt?
  rw [hsame]

end Opcode

namespace Script
variable {op : Opcode}

theorem codeWord_of_isNamed (h : op.IsNamed) : ∃ name, (name, op) ∈ Opcode.table ∧ codeWord op.toNat = ofString name := by
  obtain ⟨name, hname⟩ := h
  cases hfind : Opcode.table.find? (·.2 == op) with
  | none => exact absurd (List.find?_eq_none.mp hfind _ hname) (by simp)
  | some entry =>
    have hop : entry.2 = op := by simpa using List.find?_some hfind
    refine ⟨entry.1, hop ▸ List.mem_of_find?_eq_some hfind, ?_⟩
    unfold codeWord
    rw [Opcode.ofInt?_toNat, hfind, Option.map_some, hop]
    simp only [Opcode.label, Opcode.name?, hfind, Option.map_some, Option.getD_some]

theorem codeWord_of_not_isNamed (h : ¬op.IsNamed) : codeWord op.toNat ∈ Opcode.nameless := by
  have hfind : Opcode.table.find? (·.2 == op) = none := by
    refine List.find?_eq_none.mpr fun entry hentry heq => h ⟨entry.1, ?_⟩
    have hop : entry.2 = op := by simpa using heq
    exact hop ▸ hentry
  unfold codeWord
  rw [Opcode.ofInt?_toNat, hfind]
  simp only [Option.map_none]
  split
  · exact List.mem_map_of_mem (List.mem_cons_of_mem _ List.mem_cons_self)
  · exact List.mem_map_of_mem List.mem_cons_self

theorem wordBytes_name {name : String} (h : (name, op) ∈ Opcode.table) : wordBytes name = .ok [op] := by
  have hname := Opcode.isName_of_mem (List.mem_append_right _ (List.mem_map.mpr ⟨_, h, rfl⟩))
  unfold wordBytes
  rw [if_pos hname.1, Opcode.ofName?_of_mem h]

theorem wordBytes_nameless {w : Text} (h : w ∈ Opcode.nameless) (bytes : Bytes) : wordBytes w ≠ .ok bytes := by
  have hname := Opcode.isName_of_mem (List.mem_append_left _ h)
  unfold wordBytes
  rw [if_pos hname.1, Opcode.ofName?_nameless h]
  exact nofun

/-! ### Words of items -/

theorem isName_cons {c : CodePoint} {w : Text} (h : isName (c :: w) = true) : c = CodePoint.ofChar 'O' := by
  have hfirst : (CodePoint.ofChar 'O' == c) = true := by
    unfold isName at h
    rw [show ofString "OP_" = CodePoint.ofChar 'O' :: ofString "P_" by decide, List.isPrefixOf_cons_cons, Bool.and_eq_true] at h
    exact h.1
  exact (beq_iff_eq.mp hfirst).symm

theorem number_eq {n : Int} (h : Number.width n ≤ 4) : Push.number n = .ok (Push.encode (Number.encode n)) := by
  refine if_pos ?_
  rw [Number.length_encode]
  omega

theorem natAbs_le_iff {n : Int} : (n.natAbs : Int) ≤ Number.int32Max ↔ Number.width n ≤ 4 := by
  rw [Number.width_le_four_iff]
  unfold Number.int32Max
  omega

/-- A word of decimal digits, with or without a minus sign, is read as their number if that takes up to four bytes, and as
    data if not. -/
theorem wordBytes_digits {w t : Text} {n : Nat} {k : Int} (ht : unsigned w = t) (hdigits : Denotes t n) (hne : t ≠ [])
    (hlen : t.length ≤ maxDigits) (hname : isName w = false) (hk : k = if isNegative w then -(n : Int) else n) :
    wordBytes w = if Number.width k ≤ 4 then .ok (Push.encode (Number.encode k)) else pushWord w := by
  have hread : readInt w = .ok k := by
    unfold readInt
    rw [ht, hdigits.readNat?_eq hne hlen, hk]
  unfold wordBytes
  rw [hname, ht, if_neg Bool.false_ne_true, if_pos (hdigits.isDigits_eq hne), hread]
  change (if (k.natAbs : Int) ≤ Number.int32Max then _ else _) = _
  by_cases hwidth : Number.width k ≤ 4
  · rw [if_pos hwidth, if_pos (natAbs_le_iff.mpr hwidth), number_eq hwidth]
  · rw [if_neg hwidth, if_neg fun h => hwidth (natAbs_le_iff.mp h)]

/-- A word that neither starts like a name nor with a minus sign. -/
structure IsPlain (w : Text) : Prop where
  no_name : isName w = false
  no_sign : isNegative w = false

theorem IsPlain.unsigned_eq {w : Text} (h : IsPlain w) : unsigned w = w := by
  unfold unsigned
  rw [h.no_sign]
  rfl

theorem isPlain_of_hexDigits {w : Text} (hne : w ≠ []) (h : ∀ c ∈ w, ∃ d < 16, c = hexDigit d) : IsPlain w := by
  have hother : ∀ d < 16, hexDigit d ≠ CodePoint.ofChar 'O' ∧ hexDigit d ≠ CodePoint.ofChar '-' := by decide
  obtain ⟨c, rest, rfl⟩ := List.exists_cons_of_ne_nil hne
  obtain ⟨d, hd, rfl⟩ := h c List.mem_cons_self
  refine ⟨Bool.eq_false_iff.mpr fun hname => (hother d hd).1 (isName_cons hname), ?_⟩
  simpa [isNegative] using (hother d hd).2

theorem isPlain_natText (n : Nat) : IsPlain (natText n) := by
  refine isPlain_of_hexDigits (natText_ne_nil n) fun c hc => ?_
  obtain ⟨d, hd, rfl⟩ := (denotes_natText n).digits c hc
  exact ⟨d, by omega, (digit_eq_hexDigit hd).symm⟩

theorem isPlain_hex {item : Bytes} (hne : item ≠ []) : IsPlain (Bytes.hex item) :=
  isPlain_of_hexDigits (isWord_hex hne).ne_nil fun _ hc => Bytes.exists_of_mem_hex hc

theorem isWord_intText (n : Int) : IsWord (intText n) := by
  refine IsWord.append (fun c hc => ?_) ⟨natText_ne_nil _, (denotes_natText n.natAbs).visible⟩
  unfold signText at hc
  split at hc
  · rw [List.mem_singleton.mp hc]
    exact ⟨by decide, by decide⟩
  · cases hc

theorem wordBytes_intText {n : Int} (h : Number.width n ≤ 4) :
    wordBytes (intText n) = .ok (Push.encode (Number.encode n)) := by
  have hsmall := natAbs_le_iff.mpr h
  unfold Number.int32Max at hsmall
  have hlen : (natText n.natAbs).length ≤ maxDigits :=
    Nat.le_trans (length_natText_le (k := 10) (by decide) (by omega)) (by decide)
  unfold intText signText
  split
  · rename_i hneg
    have hunsigned : unsigned ([CodePoint.ofChar '-'] ++ natText n.natAbs) = natText n.natAbs := rfl
    rw [wordBytes_digits (k := n) hunsigned (denotes_natText n.natAbs) (natText_ne_nil _) hlen rfl, if_pos h]
    change n = -(n.natAbs : Int)
    omega
  · rename_i hpos
    have hplain := isPlain_natText n.natAbs
    rw [List.nil_append, wordBytes_digits (k := n) hplain.unsigned_eq (denotes_natText n.natAbs) (natText_ne_nil _) hlen
      hplain.no_name, if_pos h]
    rw [hplain.no_sign]
    change n = (n.natAbs : Int)
    omega

/-- The hexadecimal digits of an item are taken for decimal ones: there is no other among them, and they stand for a number of
    four bytes, or there are more than can be read. -/
def ReadsAsNumber (item : Bytes) : Prop :=
  ∃ n, Denotes (Bytes.hex item) n ∧ (n ≤ 0x7fffffff ∨ 4300 < (Bytes.hex item).length)

section
variable {item : Bytes} (hne : item ≠ [])
include hne

theorem wordBytes_hex_digits {n : Nat} (h : Denotes (Bytes.hex item) n) (hlen : (Bytes.hex item).length ≤ maxDigits) :
    wordBytes (Bytes.hex item) =
      if Number.width n ≤ 4 then .ok (Push.encode (Number.encode n)) else pushWord (Bytes.hex item) := by
  have hplain := isPlain_hex hne
  refine wordBytes_digits hplain.unsigned_eq h (isWord_hex hne).ne_nil hlen hplain.no_name ?_
  rw [hplain.no_sign]
  rfl

theorem wordBytes_hex_other (h : ¬∃ n, Denotes (Bytes.hex item) n) :
    wordBytes (Bytes.hex item) = pushWord (Bytes.hex item) := by
  have hplain := isPlain_hex hne
  unfold wordBytes
  rw [hplain.no_name, hplain.unsigned_eq, if_neg Bool.false_ne_true,
    if_neg fun hdigits => h ((isDigits_hex_iff hne).mp hdigits)]

theorem wordBytes_hex_long {n : Nat} (h : Denotes (Bytes.hex item) n) (hlen : maxDigits < (Bytes.hex item).length)
    (bytes : Bytes) : wordBytes (Bytes.hex item) ≠ .ok bytes := by
  have hplain := isPlain_hex hne
  have hread : readInt (Bytes.hex item) = .error .malformedDecimal := by
    unfold readInt
    rw [hplain.unsigned_eq, readNat?_eq_none hlen]
  unfold wordBytes
  rw [hplain.no_name, hplain.unsigned_eq, if_neg Bool.false_ne_true, if_pos ((isDigits_hex_iff hne).mpr ⟨n, h⟩), hread]
  exact nofun

theorem wordBytes_hex (hlen : item.length < 2 ^ 32) (h : ¬ReadsAsNumber item) :
    wordBytes (Bytes.hex item) = .ok (Push.encode item) := by
  have hpush : pushWord (Bytes.hex item) = .ok (Push.encode item) := by
    unfold pushWord Push.item
    rw [Bytes.readHex?_hex]
    dsimp only
    rw [if_pos hlen]
    rfl
  by_cases hdigits : ∃ n, Denotes (Bytes.hex item) n
  · obtain ⟨n, hn⟩ := hdigits
    have hshort : (Bytes.hex item).length ≤ maxDigits := Nat.le_of_not_lt fun hlong => h ⟨n, hn, .inr hlong⟩
    have hlarge : ¬Number.width n ≤ 4 := by
      intro hwidth
      have hle := natAbs_le_iff.mpr hwidth
      unfold Number.int32Max at hle
      exact h ⟨n, hn, .inl (by omega)⟩
    rw [wordBytes_hex_digits hne hn hshort, if_neg hlarge, hpush]
  · rw [wordBytes_hex_other hne hdigits, hpush]

/-- Such an item is lost: its word is read as a number of four bytes, if at all. -/
theorem wordBytes_hex_number (h : ReadsAsNumber item) {bytes : Bytes} (hbytes : wordBytes (Bytes.hex item) = .ok bytes) :
    ∃ n : Int, Number.width n ≤ 4 ∧ bytes = Push.encode (Number.encode n) := by
  obtain ⟨n, hn, hsmall⟩ := h
  have hshort : (Bytes.hex item).length ≤ maxDigits :=
    Nat.le_of_not_lt fun hlong => wordBytes_hex_long hne hn hlong bytes hbytes
  have hwidth : Number.width n ≤ 4 := by
    refine natAbs_le_iff.mp ?_
    unfold Number.int32Max
    rcases hsmall with hsmall | hlong
    · omega
    · exact absurd hlong (Nat.not_lt.mpr hshort)
  rw [wordBytes_hex_digits hne hn hshort, if_pos hwidth] at hbytes
  exact ⟨n, hwidth, (Except.ok.inj hbytes).symm⟩

end

end Script

/-! ### Operations -/

open Script

/-- The operations that their words give back: those that push nothing and have a name, and the shortest pushes of items that
    are minimal as numbers, if they are shown as such, or are not taken for numbers, if they are not. -/
inductive Operation.Lossless (o : Operation) : Prop
  | named (hitem : o.item? = none) (hname : o.opcode.IsNamed)
  | pushed {item : Bytes} (hitem : o.item? = some item) (hshortest : o = Push.operation item)
    (hshort : item.length ≤ 4 → Number.isMinimal item = true) (hlong : 5 ≤ item.length → ¬ReadsAsNumber item)

namespace Operation
variable {o o' : Operation} {item : Bytes}

theorem opWord_item (h : o.item? = some item) : opWord false o = itemWord false item := by
  unfold opWord
  rw [h]

theorem opWord_code (h : o.item? = none) : opWord false o = codeWord o.opcode.toNat := by
  unfold opWord
  rw [h]

theorem itemWord_short (h : item.length ≤ 4) : itemWord false item = intText (Number.decode item) := if_pos h

theorem itemWord_long (h : 5 ≤ item.length) : itemWord false item = Bytes.hex item := by
  unfold itemWord
  rw [if_neg (by omega)]
  rfl

theorem isWord_opWord (o : Operation) : IsWord (opWord false o) := by
  cases hitem : o.item? with
  | none =>
    rw [opWord_code hitem]
    by_cases hname : o.opcode.IsNamed
    · obtain ⟨name, hmem, hword⟩ := codeWord_of_isNamed hname
      rw [hword]
      exact (Opcode.isName_of_mem (List.mem_append_right _ (List.mem_map.mpr ⟨_, hmem, rfl⟩))).2
    · exact (Opcode.isName_of_mem (List.mem_append_left _ (codeWord_of_not_isNamed hname))).2
  | some item =>
    rw [opWord_item hitem]
    rcases Nat.lt_or_ge item.length 5 with hlen | hlen
    · rw [itemWord_short (by omega)]
      exact isWord_intText _
    · rw [itemWord_long hlen]
      exact isWord_hex (List.length_pos_iff.mp (by omega))

/-- An item of up to four bytes is read back as the shortest push of the shortest item of its value. -/
theorem wordBytes_short (h : item.length ≤ 4) : wordBytes (itemWord false item) =
    .ok (Push.operation (Number.encode (Number.decode item))).toBytes := by
  have hwidth : Number.width (Number.decode item) ≤ 4 := Nat.le_trans (Number.width_decode_le item) h
  have hlen : (Number.encode (Number.decode item)).length < 2 ^ 32 := by
    rw [Number.length_encode]
    omega
  rw [itemWord_short h, wordBytes_intText hwidth, Push.toBytes_operation hlen]

theorem code_of_item? (hitem : o.item? = none) : o.toBytes = [o.opcode] := by
  cases o with
  | push p => cases hitem
  | code op => rfl

theorem Lossless.wordBytes_opWord (h : o.Lossless) : wordBytes (opWord false o) = .ok o.toBytes := by
  cases h with
  | named hitem hname =>
    obtain ⟨name, hmem, hword⟩ := codeWord_of_isNamed hname
    rw [opWord_code hitem, hword, wordBytes_name hmem, code_of_item? hitem]
  | @pushed item hitem hshortest hshort hlong =>
    have hlt := length_item_lt hitem
    rw [opWord_item hitem]
    rcases Nat.lt_or_ge item.length 5 with hlen | hlen
    · have hminimal : Number.encode (Number.decode item) = item := by simpa [Number.isMinimal] using hshort (by omega)
      rw [wordBytes_short (by omega), hminimal, ← hshortest]
    · have hne : item ≠ [] := List.length_pos_iff.mp (by omega)
      rw [itemWord_long hlen, wordBytes_hex hne hlt (hlong hlen), ← Push.toBytes_operation hlt, ← hshortest]

/-- A word that does not give its operation back is read as another operation, if at all. -/
theorem wordBytes_differs (h : ¬o.Lossless) {bytes : Bytes} (hbytes : wordBytes (opWord false o) = .ok bytes) :
    ∃ o' : Operation, o'.isDistinct = true ∧ o' ≠ o ∧ bytes = o'.toBytes := by
  cases hitem : o.item? with
  | none =>
    have hname : ¬o.opcode.IsNamed := fun hname => h (.named hitem hname)
    rw [opWord_code hitem] at hbytes
    exact absurd hbytes (wordBytes_nameless (codeWord_of_not_isNamed hname) bytes)
  | some item =>
    have hlt := length_item_lt hitem
    rw [opWord_item hitem] at hbytes
    rcases Nat.lt_or_ge item.length 5 with hlen | hlen
    · rw [wordBytes_short (by omega)] at hbytes
      have hlt' : (Number.encode (Number.decode item)).length < 2 ^ 32 := by
        have hwidth := Number.width_decode_le item
        rw [Number.length_encode]
        omega
      refine ⟨_, Push.isDistinct_operation hlt', fun heq => h ?_, (Except.ok.inj hbytes).symm⟩
      -- the item of the operation that is read is the item itself, which is then minimal
      have hsame : Number.encode (Number.decode item) = item := by
        have hitem' := Push.item?_operation hlt'
        rw [heq, hitem] at hitem'
        exact (Option.some.inj hitem').symm
      refine .pushed hitem (hsame ▸ heq).symm (fun _ => ?_) (fun hlong => absurd hlong (by omega))
      simpa [Number.isMinimal] using hsame
    · have hne : item ≠ [] := List.length_pos_iff.mp (by omega)
      rw [itemWord_long hlen] at hbytes
      by_cases hnumber : ReadsAsNumber item
      · obtain ⟨n, hwidth, rfl⟩ := wordBytes_hex_number hne hnumber hbytes
        have hlength := Number.length_encode n
        have hlt' : (Number.encode n).length < 2 ^ 32 := by omega
        refine ⟨_, Push.isDistinct_operation hlt', fun heq => ?_, (Push.toBytes_operation hlt').symm⟩
        have hitem' := Push.item?_operation hlt'
        rw [heq, hitem] at hitem'
        rw [Option.some.inj hitem'] at hlen
        omega
      · rw [wordBytes_hex hne hlt hnumber] at hbytes
        refine ⟨_, Push.isDistinct_operation hlt, fun heq => h ?_, ?_⟩
        · exact .pushed hitem heq.symm (fun hshort => absurd hlen (by omega)) fun _ => hnumber
        · rw [Push.toBytes_operation hlt]
          exact (Except.ok.inj hbytes).symm

theorem eq_of_toBytes_append (h : o.isDistinct = true) (h' : o'.isDistinct = true) {bs bs' : Bytes}
    (heq : o.toBytes ++ bs = o'.toBytes ++ bs') : o = o' := by
  have hlisting := congrArg (fun script => (listing script).ops) heq
  simp only [listing_append h, listing_append h', List.cons.injEq] at hlisting
  exact hlisting.1

end Operation

/-! ### Scripts -/

namespace Script
variable {script : Bytes} {ops : List Operation}

theorem lossless_of_mapM (hdistinct : ∀ o ∈ ops, o.isDistinct = true) {parts : List Bytes}
    (hparts : (ops.map (opWord false)).mapM wordBytes = .ok parts) (hsame : parts.flatten = ofOps ops) :
    ∀ o ∈ ops, o.Lossless := by
  induction ops generalizing parts with
  | nil =>
    intro o ho
    cases ho
  | cons o ops ih =>
    obtain ⟨bytes, hbytes, rest, hrest, rfl⟩ := mapM_cons_eq_ok.mp hparts
    have hfirst := hdistinct o List.mem_cons_self
    have hsame : bytes ++ rest.flatten = o.toBytes ++ ofOps ops := hsame
    have hlossless : o.Lossless := by
      refine Classical.byContradiction fun hlost => ?_
      obtain ⟨o', hdistinct', hne, rfl⟩ := Operation.wordBytes_differs hlost hbytes
      exact hne (Operation.eq_of_toBytes_append hdistinct' hfirst hsame)
    rw [hlossless.wordBytes_opWord] at hbytes
    cases hbytes
    intro o' ho'
    rcases List.mem_cons.mp ho' with rfl | ho'
    · exact hlossless
    · exact ih (fun o ho => hdistinct o (List.mem_cons_of_mem _ ho)) hrest (List.append_cancel_left hsame) o' ho'

theorem ofAsm_words {ws : List Text} (h : ∀ w ∈ ws, IsWord w) :
    ofAsm (joinWords ws) = (ws.mapM wordBytes).map List.flatten := by
  unfold ofAsm joinWords
  rw [words_join h]
  cases ws.mapM wordBytes with
  | ok parts => rfl
  | error f => rfl

theorem joinWords_append_pair (ws : List Text) (v w : Text) :
    joinWords (ws ++ [v ++ ofString " " ++ w]) = joinWords (ws ++ [v, w]) := by
  unfold joinWords Text.join
  induction ws with
  | nil => simp [List.intercalate_cons_cons]
  | cons u ws ih =>
    cases ws with
    | nil => simp [List.intercalate_cons_cons]
    | cons u' ws =>
      simp only [List.cons_append, List.intercalate_cons_cons] at ih ⊢
      rw [ih]

/-- The word for a cut-off end holds a space, and the first of the two words that it is cut into is none that can be read. -/
theorem ofAsm_cut {ws : List Text} (h : ∀ w ∈ ws, IsWord w) (bytes : Bytes) :
    ofAsm (joinWords (ws ++ [truncatedWord])) ≠ .ok bytes := by
  have hsplit : truncatedWord = ofString "[script" ++ ofString " " ++ ofString "error]" := by decide
  have hhalves : IsWord (ofString "[script") ∧ IsWord (ofString "error]") := by decide +kernel
  have hwords : ∀ w ∈ ws ++ [ofString "[script", ofString "error]"], IsWord w := by
    intro w hw
    rcases List.mem_append.mp hw with hw | hw
    · exact h w hw
    · rcases List.mem_cons.mp hw with rfl | hw
      · exact hhalves.1
      · exact List.mem_singleton.mp hw ▸ hhalves.2
  have hbad : wordBytes (ofString "[script") = .error (.badPushWord (ofString "[script")) := rfl
  rw [hsplit, joinWords_append_pair, ofAsm_words hwords]
  intro hok
  obtain ⟨parts, hparts, -⟩ := map_eq_ok.mp hok
  obtain ⟨part, hpart⟩ := exists_mapM_eq_ok.mp ⟨parts, hparts⟩ (ofString "[script") (by simp)
  rw [hbad] at hpart
  cases hpart

/-- A script is read back from its words exactly if it is not cut off and holds only operations that their words give back. -/
theorem ofAsm_toAsm_iff (script : Bytes) :
    ofAsm (toAsm script false truncatedWord) = .ok script ↔ ∃ ops, decode script = .ok ops ∧ ∀ o ∈ ops, o.Lossless := by
  have hwords : ∀ w ∈ (listing script).ops.map (opWord false), IsWord w := by
    intro w hw
    obtain ⟨o, -, rfl⟩ := List.mem_map.mp hw
    exact o.isWord_opWord
  unfold toAsm
  dsimp only
  cases hcut : (listing script).cut with
  | some cut =>
    rw [Option.isSome_some, if_pos rfl]
    constructor
    · intro hread
      exact absurd hread (ofAsm_cut hwords script)
    · rintro ⟨ops, hdecode, -⟩
      rw [(listing_of_decode hdecode).2] at hcut
      cases hcut
  | none =>
    have hdecode : decode script = .ok (listing script).ops := by
      unfold decode Listing.complete
      rw [hcut]
    obtain ⟨hwhole, hdistinct⟩ := ofOps_of_decode hdecode
    rw [Option.isSome_none, if_neg Bool.false_ne_true, ofAsm_words hwords, map_eq_ok]
    constructor
    · rintro ⟨parts, hparts, hsame⟩
      exact ⟨_, hdecode, lossless_of_mapM hdistinct hparts (hsame.trans hwhole.symm)⟩
    · rintro ⟨ops, hdecode', hlossless⟩
      obtain ⟨rfl, -⟩ := listing_of_decode hdecode'
      refine ⟨_, mapM_map_eq_ok fun o ho => (hlossless o ho).wordBytes_opWord, ?_⟩
      rw [← List.flatMap_def]
      exact hwhole

-- five bytes that are shown as 0000000042, and a push of the number 42
example : ofAsm (toAsm [0x05, 0x00, 0x00, 0x00, 0x00, 0x42] false truncatedWord) = .ok [0x01, 0x2a] := by rfl

end Script

end SpendScript
