import SpendScript.Proofs.AsmRoundTrip
import SpendScript.TestVector.Run

/-! # Faults of script text

Script text is read word by word, and the first word that is refused gives the fault of the whole text
(`Ends.mapM_iff`). The fault is one of script text unless that word is a number of digits that stand for none, or of too
many (`IsUnreadable`), or in a test vector a quoted text that cannot be pushed (`Escapes`). -/

namespace SpendScript

/-! ### The first refused word -/

/-- The first element of a list that a reader refuses. -/
inductive FirstRefused {ε α β : Type} (read : α → Except ε β) : List α → α → Prop
  | here {a : α} {l : List α} {e : ε} (h : read a = .error e) : FirstRefused read (a :: l) a
  | later {a b : α} {l : List α} {x : β} (hb : read b = .ok x) (h : FirstRefused read l a) :
      FirstRefused read (b :: l) a

section
variable {ε α β : Type} {read : α → Except ε β} {a b : α} {l : List α}

theorem firstRefused_cons_error {e : ε} (h : read b = .error e) : FirstRefused read (b :: l) a ↔ a = b := by
  constructor
  · intro hfirst
    cases hfirst with
    | here => rfl
    | later hb => cases h.symm.trans hb
  · rintro rfl
    exact .here h

theorem firstRefused_cons_ok {x : β} (h : read b = .ok x) :
    FirstRefused read (b :: l) a ↔ FirstRefused read l a := by
  constructor
  · intro hfirst
    cases hfirst with
    | here ha => cases h.symm.trans ha
    | later _ hl => exact hl
  · exact .later h

/-- A list is refused with a failure outside `E` exactly if its first refused element is `bad`, where the bad elements are
    those that are refused so by themselves. -/
theorem Ends.mapM_iff {E : ε → Prop} {bad : α → Prop} (h : ∀ a, Ends (fun _ => True) E (read a) ↔ ¬bad a) (l : List α) :
    Ends (fun _ => True) E (l.mapM read) ↔ ¬∃ a, FirstRefused read l a ∧ bad a := by
  induction l with
  | nil => exact ⟨fun _ ⟨a, hfirst, _⟩ => (nomatch hfirst), fun _ => trivial⟩
  | cons b l ih =>
    have hb := h b
    rw [List.mapM_cons]
    cases hread : read b with
    | error e =>
      simp only [firstRefused_cons_error hread, exists_eq_left]
      rwa [hread] at hb
    | ok x =>
      simp only [firstRefused_cons_ok hread]
      rw [← ih]
      cases l.mapM read with
      | error e => exact Iff.rfl
      | ok xs => exact Iff.rfl

end

/-! ### Numbers -/

namespace Text

theorem mapM_eq_none_iff {α β : Type} {f : α → Option β} {l : List α} : l.mapM f = none ↔ ∃ a ∈ l, f a = none := by
  induction l with
  | nil => simp
  | cons a l ih =>
    simp only [List.mapM_cons, List.mem_cons, exists_eq_or_imp]
    cases ha : f a with
    | none => simp
    | some b =>
      rw [← ih]
      cases l.mapM f with
      | none => simp
      | some bs => simp

theorem decimalValue?_lt {c : CodePoint} {d : Nat} (h : decimalValue? c = some d) : d < 10 := by
  obtain ⟨z, hz, rfl⟩ := Option.map_eq_some_iff.mp h
  have hrange := List.find?_some hz
  simp only [Bool.and_eq_true, decide_eq_true_eq] at hrange
  omega

theorem foldl_lt_of_mapM {t : Text} {values : List Nat} (h : t.mapM decimalValue? = some values) (n : Nat) :
    values.foldl (fun n d => 10 * n + d) n < (n + 1) * 10 ^ t.length := by
  induction t generalizing values n with
  | nil =>
    cases h
    simp
  | cons c t ih =>
    simp only [List.mapM_cons, Option.bind_eq_bind, Option.bind_eq_some_iff] at h
    obtain ⟨d, hd, rest, hrest, hvalues⟩ := h
    cases hvalues
    have hd := decimalValue?_lt hd
    calc rest.foldl (fun n d => 10 * n + d) (10 * n + d)
        < (10 * n + d + 1) * 10 ^ t.length := ih hrest _
      _ ≤ (n + 1) * 10 * 10 ^ t.length := Nat.mul_le_mul_right _ (by omega)
      _ = (n + 1) * 10 ^ (c :: t).length := by rw [List.length_cons, Nat.pow_succ', Nat.mul_assoc]

theorem readNat?_lt {t : Text} {n : Nat} (h : readNat? t = some n) : n < 10 ^ t.length ∧ t.length ≤ maxDigits := by
  unfold readNat? at h
  split at h
  · cases h
  · rename_i hlen
    obtain ⟨values, hvalues, rfl⟩ := Option.map_eq_some_iff.mp h
    refine ⟨?_, Nat.le_of_not_lt fun hlong => hlen (.inr hlong)⟩
    simpa using foldl_lt_of_mapM hvalues 0

theorem ne_nil_of_isDigits {t : Text} (h : isDigits t = true) : t ≠ [] := by
  rintro rfl
  cases h

theorem readNat?_eq_none_iff {t : Text} (hne : t ≠ []) :
    readNat? t = none ↔ maxDigits < t.length ∨ ∃ c ∈ t, decimalValue? c = none := by
  unfold readNat?
  by_cases hlen : maxDigits < t.length
  · simp [hlen]
  · rw [if_neg (not_or.mpr ⟨hne, hlen⟩), Option.map_eq_none_iff, mapM_eq_none_iff]
    exact ⟨.inr, fun h => h.resolve_left hlen⟩

end Text

namespace Script
open Text

/-- A word that is taken for a number but stands for none, as a digit of it is no decimal digit or there are too many. -/
structure IsUnreadable (w : Text) : Prop where
  digits : isDigits (unsigned w) = true
  unread : maxDigits < (unsigned w).length ∨ ∃ c ∈ unsigned w, decimalValue? c = none

section
variable {w : Text}

/-- A code point that is no digit keeps a word from being taken for a number, unless it is the sign. -/
theorem not_isDigits_of_mem {c : CodePoint} (hmem : c ∈ w) (hsign : c ≠ CodePoint.ofChar '-') (hc : isDigit c = false) :
    ¬isDigits (unsigned w) = true := by
  have hrest : c ∈ unsigned w := by
    unfold unsigned
    split
    · rename_i hneg
      cases w with
      | nil => cases hmem
      | cons b w =>
        simp only [isNegative, List.head?_cons, beq_iff_eq, Option.some.injEq] at hneg
        exact (List.mem_cons.mp hmem).resolve_left fun hb => hsign (hb.trans hneg)
    · exact hmem
  intro hdigits
  simp only [isDigits, Bool.and_eq_true, List.all_eq_true] at hdigits
  exact Bool.false_ne_true (hc.symm.trans (hdigits.2 c hrest))

theorem not_isDigits_of_isName (h : isName w = true) : ¬isDigits (unsigned w) = true := by
  cases w with
  | nil => cases h
  | cons c w =>
    cases isName_cons h
    exact not_isDigits_of_mem List.mem_cons_self (by decide) (by decide)

theorem readInt_of_isUnreadable (h : IsUnreadable w) : readInt w = .error .malformedDecimal := by
  unfold readInt
  rw [(readNat?_eq_none_iff (ne_nil_of_isDigits h.digits)).mpr h.unread]

/-- A number that can be read has few enough digits to be pushed. -/
theorem exists_number {n : Int} (h : readInt w = .ok n) : ∃ bytes, Push.number n = .ok bytes := by
  unfold readInt at h
  cases hread : readNat? (unsigned w) with
  | none =>
    rw [hread] at h
    cases h
  | some k =>
    rw [hread] at h
    obtain ⟨hk, hlen⟩ := readNat?_lt hread
    have habs : n.natAbs = k := by
      cases h
      split
      · exact Int.natAbs_neg _
      · rfl
    have hbound : n.natAbs < 2 ^ (4 * (unsigned w).length) :=
      calc n.natAbs < 10 ^ (unsigned w).length := habs ▸ hk
        _ ≤ (2 ^ 4) ^ (unsigned w).length := Nat.pow_le_pow_left (by decide) _
        _ = 2 ^ (4 * (unsigned w).length) := (Nat.pow_mul 2 4 _).symm
    have hwidth := Number.width_le hbound
    refine ⟨_, if_pos ?_⟩
    rw [Number.length_encode]
    unfold maxDigits at hlen
    omega

theorem exists_readInt (hdigits : isDigits (unsigned w) = true) (h : ¬IsUnreadable w) : ∃ n, readInt w = .ok n := by
  unfold readInt
  cases hread : readNat? (unsigned w) with
  | some n => exact ⟨_, rfl⟩
  | none => exact absurd ⟨hdigits, (readNat?_eq_none_iff (ne_nil_of_isDigits hdigits)).mp hread⟩ h

/-! ### Words -/

theorem pushWord_ends (w : Text) : Ends (fun _ => True) (fun f : Fault => f.isScriptFault = true) (pushWord w) := by
  unfold pushWord
  cases Bytes.readHex? w with
  | none => rfl
  | some item =>
    cases hitem : Push.item item with
    | ok bytes =>
      dsimp only
      rw [hitem]
      trivial
    | error f =>
      dsimp only
      rw [hitem]
      rfl

theorem wordBytes_ends_iff (w : Text) :
    Ends (fun _ => True) (fun f : Fault => f.isScriptFault = true) (wordBytes w) ↔ ¬IsUnreadable w := by
  unfold wordBytes
  by_cases hname : isName w = true
  · rw [if_pos hname]
    refine iff_of_true ?_ fun h => not_isDigits_of_isName hname h.digits
    cases Opcode.ofName? w with
    | some op => trivial
    | none => rfl
  rw [if_neg hname]
  by_cases hdigits : isDigits (unsigned w) = true
  · rw [if_pos hdigits]
    by_cases hw : IsUnreadable w
    · rw [readInt_of_isUnreadable hw]
      exact iff_of_false (by decide : ¬FaultClass.isA .badValue .script = true) (not_not_intro hw)
    · obtain ⟨n, hn⟩ := exists_readInt hdigits hw
      obtain ⟨bytes, hbytes⟩ := exists_number hn
      refine iff_of_true ?_ hw
      rw [hn]
      change Ends _ _ (if (n.natAbs : Int) ≤ Number.int32Max then Push.number n else pushWord w)
      split
      · rw [hbytes]
        trivial
      · exact pushWord_ends w
  · rw [if_neg hdigits]
    exact iff_of_true (pushWord_ends w) fun h => hdigits h.digits

end

/-- The first refused word of a text is taken for a number but stands for none. -/
def Unread (text : Text) : Prop := ∃ w, FirstRefused wordBytes (words text) w ∧ IsUnreadable w

theorem ofAsm_ends_iff (text : Text) :
    Ends (fun _ => True) (fun f : Fault => f.isScriptFault = true) (ofAsm text) ↔ ¬Unread text := by
  unfold Unread
  rw [← Ends.mapM_iff wordBytes_ends_iff (words text)]
  unfold ofAsm
  cases (words text).mapM wordBytes with
  | error f => exact Iff.rfl
  | ok parts => exact Iff.rfl

theorem ofHex_eq_ok_iff {text : Text} {b : Bytes} : ofHex text = .ok b ↔ text = Bytes.hex b := by
  unfold ofHex
  constructor
  · intro h
    split at h
    · cases h
    · split at h
      · rename_i heq
        cases h
        exact heq.symm
      · cases h
  · rintro rfl
    rw [Bytes.readHex?_hex]
    exact if_pos rfl

theorem ofText_ends_iff (text : Text) :
    Ends (fun _ => True) (fun f : Fault => f.isScriptFault = true) (ofText text) ↔
      (∃ b, text = Bytes.hex b) ∨ ¬Unread text := by
  unfold ofText
  rw [← ofAsm_ends_iff]
  cases hhex : ofHex text with
  | ok b => exact iff_of_true trivial (.inl ⟨b, ofHex_eq_ok_iff.mp hhex⟩)
  | error f =>
    refine ⟨.inr, fun h => h.resolve_left ?_⟩
    rintro ⟨b, hb⟩
    cases hhex.symm.trans (ofHex_eq_ok_iff.mpr hb)

end Script

/-! ### Tokens of test vectors -/

namespace TestVector
open Text

theorem utf8?_eq_none_iff {text : Text} : utf8? text = none ↔ ∃ c ∈ text, c.isSurrogate = true := by
  unfold utf8?
  rw [Option.map_eq_none_iff, mapM_eq_none_iff]
  simp only [CodePoint.utf8?, ite_eq_left_iff, Bool.not_eq_true, reduceCtorEq, imp_false, Bool.not_eq_false]

theorem length_pos_of_utf8? {text : Text} {data : Bytes} (hne : text ≠ []) (h : utf8? text = some data) :
    1 ≤ data.length := by
  obtain ⟨parts, hparts, rfl⟩ := Option.map_eq_some_iff.mp h
  cases text with
  | nil => exact absurd rfl hne
  | cons c text =>
    simp only [List.mapM_cons, Option.bind_eq_bind, Option.bind_eq_some_iff] at hparts
    obtain ⟨bytes, hbytes, rest, -, hcons⟩ := hparts
    cases hcons
    unfold CodePoint.utf8? at hbytes
    split at hbytes
    · cases hbytes
    · cases hbytes
      have hpos := Char.utf8Size_pos (Char.ofNat c.val)
      rw [List.flatten_cons, List.length_append, String.length_utf8EncodeChar]
      omega

/-- Data that is not empty is pushed if its length takes up to four bytes. -/
theorem shortest_ends_iff {data : Bytes} (hpos : 1 ≤ data.length) :
    Ends (fun _ => True) (fun f : Fault => f.faultClass = .scriptParse) ((PushData.shortest data).map PushData.toBytes) ↔
      data.length < 2 ^ 32 := by
  by_cases hlen : data.length < 2 ^ 32
  · refine iff_of_true ?_ hlen
    have hencoding : PushEncoding.forLength data.length = .ok (PushEncoding.shortest data.length) := if_pos (by omega)
    have hmake : PushData.shortest data = .ok ⟨data, _, PushEncoding.accepts_shortest hpos hlen⟩ := by
      unfold PushData.shortest
      rw [hencoding]
      exact dif_pos _
    rw [hmake]
    trivial
  · have hencoding : PushEncoding.forLength data.length = .error .itemTooLarge := if_neg (by omega)
    have hmake : PushData.shortest data = .error .itemTooLarge := by
      unfold PushData.shortest
      rw [hencoding]
      rfl
    rw [hmake]
    exact iff_of_false (by decide : ¬FaultClass.badValue = .scriptParse) hlen

/-- A token that is refused with another fault than one of parsing: a number that cannot be read, or a quoted text that
    has no bytes or too many. -/
inductive Escapes (token : Text) : Prop
  | number (h : Script.IsUnreadable token)
  | surrogate {text : Text} (hquoted : quotedText? token = some text) (h : ∃ c ∈ text, c.isSurrogate = true)
  | long {text : Text} {data : Bytes} (hquoted : quotedText? token = some text) (hdata : utf8? text = some data)
      (hlong : 2 ^ 32 ≤ data.length)

section
variable {token : Text}

theorem head?_of_quotedText? {text : Text} (h : quotedText? token = some text) : token.head? = some singleQuote := by
  unfold quotedText? at h
  split at h
  · rename_i hquotes
    exact hquotes.2.1
  · cases h

theorem not_isDigits_of_quotedText? {text : Text} (h : quotedText? token = some text) :
    ¬isDigits (Script.unsigned token) = true :=
  Script.not_isDigits_of_mem (List.mem_of_head? (head?_of_quotedText? h)) (by decide) (by decide)

theorem not_escapes_of_raw (h : (ofString "0x").isPrefixOf token = true) : ¬Escapes token := by
  obtain ⟨rest, rfl⟩ := List.isPrefixOf_iff_prefix.mp h
  have hquoted : ∀ text, quotedText? (ofString "0x" ++ rest) ≠ some text := by
    intro text hquoted
    exact absurd (Option.some.inj (head?_of_quotedText? hquoted)) (by decide)
  intro hescapes
  cases hescapes with
  | number hnumber =>
    have hmem : CodePoint.ofChar 'x' ∈ ofString "0x" ++ rest := List.mem_append_left _ (by decide)
    exact Script.not_isDigits_of_mem hmem (by decide) (by decide) hnumber.digits
  | surrogate htext => exact hquoted _ htext
  | long htext => exact hquoted _ htext

/-- A quoted text escapes if it cannot be pushed. -/
theorem escapes_iff_of_quotedText? {text : Text} (hquoted : quotedText? token = some text) :
    Escapes token ↔ utf8? text = none ∨ ∃ data, utf8? text = some data ∧ 2 ^ 32 ≤ data.length := by
  constructor
  · intro hescapes
    cases hescapes with
    | number hnumber => exact absurd hnumber.digits (not_isDigits_of_quotedText? hquoted)
    | surrogate htext hsurrogate =>
      cases hquoted.symm.trans htext
      exact .inl (utf8?_eq_none_iff.mpr hsurrogate)
    | long htext hdata hlong =>
      cases hquoted.symm.trans htext
      exact .inr ⟨_, hdata, hlong⟩
  · rintro (hnone | ⟨data, hdata, hlong⟩)
    · exact .surrogate hquoted (utf8?_eq_none_iff.mp hnone)
    · exact .long hquoted hdata hlong

theorem symbolBytes_ends_iff (h : ¬isDigits (Script.unsigned token) = true) :
    Ends (fun _ => True) (fun f : Fault => f.faultClass = .scriptParse) (symbolBytes token) ↔ ¬Escapes token := by
  unfold symbolBytes
  cases hquoted : quotedText? token with
  | none =>
    refine iff_of_true ?_ ?_
    · dsimp only
      cases opcode? token with
      | some op => trivial
      | none => rfl
    · intro hescapes
      cases hescapes with
      | number hnumber => exact h hnumber.digits
      | surrogate htext => cases hquoted.symm.trans htext
      | long htext => cases hquoted.symm.trans htext
  | some text =>
    rw [escapes_iff_of_quotedText? hquoted]
    cases text with
    | nil => exact iff_of_true trivial (by decide)
    | cons c text =>
      dsimp only
      cases hdata : utf8? (c :: text) with
      | none => exact iff_of_false (by decide : ¬FaultClass.unencodable = .scriptParse) fun h => h (.inl rfl)
      | some data =>
        simp only [shortest_ends_iff (length_pos_of_utf8? (List.cons_ne_nil c text) hdata), reduceCtorEq, false_or,
          Option.some.injEq, exists_eq_left', Nat.not_le]

theorem tokenBytes_ends_iff (token : Text) :
    Ends (fun _ => True) (fun f : Fault => f.faultClass = .scriptParse) (tokenBytes token) ↔ ¬Escapes token := by
  unfold tokenBytes
  by_cases hraw : (ofString "0x").isPrefixOf token = true
  · rw [if_pos hraw]
    refine iff_of_true ?_ (not_escapes_of_raw hraw)
    unfold rawBytes
    cases Bytes.readHex? (token.drop 2) with
    | some bytes => trivial
    | none => rfl
  rw [if_neg hraw]
  by_cases hdigits : isDigits (Script.unsigned token) = true
  · rw [if_pos hdigits]
    by_cases hnumber : Script.IsUnreadable token
    · rw [Script.readInt_of_isUnreadable hnumber]
      exact iff_of_false (by decide : ¬FaultClass.badValue = .scriptParse) (not_not_intro (.number hnumber))
    · obtain ⟨n, hn⟩ := Script.exists_readInt hdigits hnumber
      obtain ⟨bytes, hbytes⟩ := Script.exists_number hn
      rw [hn]
      change Ends _ _ (Push.number n) ↔ _
      rw [hbytes]
      refine iff_of_true trivial ?_
      intro hescapes
      cases hescapes with
      | number h => exact hnumber h
      | surrogate htext => exact not_isDigits_of_quotedText? htext hdigits
      | long htext => exact not_isDigits_of_quotedText? htext hdigits
  · rw [if_neg hdigits]
    exact symbolBytes_ends_iff hdigits

end

/-- The first refused token of a text is one that escapes. -/
def Unread (text : Text) : Prop := ∃ token, FirstRefused tokenBytes (words text) token ∧ Escapes token

theorem parseScript_ends_iff (text : Text) :
    Ends (fun _ => True) (fun f : Fault => f.faultClass = .scriptParse) (parseScript text) ↔ ¬Unread text := by
  unfold Unread
  rw [← Ends.mapM_iff tokenBytes_ends_iff (words text)]
  unfold parseScript
  cases (words text).mapM tokenBytes with
  | error f => exact Iff.rfl
  | ok parts =>
    refine iff_of_true ?_ trivial
    dsimp only [bind, Except.bind]
    cases (Script.listing parts.flatten).cut with
    | none => trivial
    | some cut => rfl

theorem exists_decode_of_parseScript {text : Text} {script : Bytes} (h : parseScript text = .ok script) :
    ∃ ops, Script.decode script = .ok ops := by
  obtain ⟨parts, -, hscript⟩ := bind_eq_ok.mp h
  dsimp only at hscript
  cases hcut : (Script.listing parts.flatten).cut with
  | some cut =>
    rw [hcut] at hscript
    cases hscript
  | none =>
    rw [hcut] at hscript
    cases hscript
    refine ⟨(Script.listing parts.flatten).ops, ?_⟩
    unfold Script.decode Listing.complete
    rw [hcut]

theorem parseScript_decodes_iff (text : Text) :
    Ends (fun script => ∃ ops, Script.decode script = .ok ops) (fun f : Fault => f.faultClass = .scriptParse)
      (parseScript text) ↔ ¬Unread text := by
  rw [← parseScript_ends_iff]
  exact ⟨fun h => h.mono fun _ _ => trivial, fun h => h.with_eq.mono fun _ hs => exists_decode_of_parseScript hs.2⟩

/-! ### Runs of test vectors -/

section
variable {env : Env} {unlock lock : Text} {label : Literal}

theorem exists_run_iff {tag : Text} {expected : Bool} {v : TestVector} :
    (∃ r, v.run env tag expected = .ok r) ↔ ∃ o, v.outcome env = .ok o := by
  unfold run
  cases v.outcome env with
  | error f => exact iff_of_false (fun ⟨r, h⟩ => (nomatch h)) fun ⟨o, h⟩ => (nomatch h)
  | ok o => exact iff_of_true ⟨_, rfl⟩ ⟨o, rfl⟩

section
variable {u l : Bytes} {f : Fault} {v : TestVector}

theorem outcome_of_ok
    (h : (do return (← script v.unlock, ← script v.lock) : Except Fault (Bytes × Bytes)) = .ok (u, l)) :
    v.outcome env = (evaluate env u l).map .ok := by
  unfold outcome
  rw [h]

/-- A vector with a script that is refused has an outcome if the fault is one of parsing. -/
theorem exists_outcome_of_error
    (h : (do return (← script v.unlock, ← script v.lock) : Except Fault (Bytes × Bytes)) = .error f) :
    (∃ o, v.outcome env = .ok o) ↔ f.faultClass = .scriptParse := by
  unfold outcome
  rw [h]
  dsimp only
  by_cases hf : f.faultClass = .scriptParse
  · rw [if_pos hf]
    exact iff_of_true ⟨_, rfl⟩ hf
  · rw [if_neg hf]
    exact iff_of_false (fun ⟨o, h⟩ => (nomatch h)) hf

end

theorem exists_outcome_iff
    (heval : ∀ u l, parseScript unlock = .ok u → parseScript lock = .ok l → ∃ e, evaluate env u l = .ok e) :
    (∃ o, (TestVector.mk (.text unlock) (.text lock) label).outcome env = .ok o) ↔
      ¬Unread unlock ∧ ((∃ u, parseScript unlock = .ok u) → ¬Unread lock) := by
  rw [← parseScript_ends_iff, ← parseScript_ends_iff]
  cases hu : parseScript unlock with
  | error f =>
    refine (exists_outcome_of_error (f := f) (by simp only [script, hu]; rfl)).trans ?_
    exact ⟨fun hf => ⟨hf, fun ⟨u, h⟩ => (nomatch h)⟩, fun h => h.1⟩
  | ok u =>
    cases hl : parseScript lock with
    | error f =>
      refine (exists_outcome_of_error (f := f) (by simp only [script, hu, hl]; rfl)).trans ?_
      exact ⟨fun hf => ⟨trivial, fun _ => hf⟩, fun h => h.2 ⟨u, rfl⟩⟩
    | ok l =>
      obtain ⟨e, he⟩ := heval u l hu hl
      refine iff_of_true ⟨.ok e, ?_⟩ ⟨trivial, fun _ => trivial⟩
      rw [outcome_of_ok (u := u) (l := l) (by simp only [script, hu, hl]; rfl), he]
      rfl

end

/-- Script text is read or refused with a fault of script text, and the text of a test vector with one of parsing, unless
    its first refused word escapes. A vector has a result, if its scripts can be evaluated, unless the first refused token
    of its first refused text escapes. -/
theorem text_readers_ends_iff (text : Text) :
    (Ends (fun _ => True) (fun f : Fault => f.isScriptFault = true) (Script.ofAsm text) ↔ ¬Script.Unread text) ∧
    (Ends (fun _ => True) (fun f : Fault => f.isScriptFault = true) (Script.ofText text) ↔
      (∃ b, text = Bytes.hex b) ∨ ¬Script.Unread text) ∧
    (Ends (fun script => ∃ ops, Script.decode script = .ok ops) (fun f : Fault => f.faultClass = .scriptParse)
      (parseScript text) ↔ ¬Unread text) ∧
    ∀ lock env tag expected label,
      (∀ u l, parseScript text = .ok u → parseScript lock = .ok l → ∃ e, evaluate env u l = .ok e) →
        ((∃ r, run env tag expected ⟨.text text, .text lock, label⟩ = .ok r) ↔
          ¬Unread text ∧ ((∃ u, parseScript text = .ok u) → ¬Unread lock)) :=
  ⟨Script.ofAsm_ends_iff text, Script.ofText_ends_iff text, parseScript_decodes_iff text,
    fun _ _ _ _ _ heval => exists_run_iff.trans (exists_outcome_iff heval)⟩

/-- A sum is run, and a superscript in its place ends the run. -/
theorem text_readers_ends_iff_sum :
    (∀ u l, parseScript "1" = .ok u → parseScript "2 0x93" = .ok l →
      ∃ e, evaluate ⟨.default, some rejectAll, .standard⟩ u l = .ok e) ∧
    (∃ r, run ⟨.default, some rejectAll, .standard⟩ [] true ⟨.text "1", .text "2 0x93", .text []⟩ = .ok r) ∧
    ¬∃ r, run ⟨.default, some rejectAll, .standard⟩ [] true ⟨.text "1", .text "² 0x93", .text []⟩ = .ok r := by
  have hunlock : parseScript "1" = .ok [Opcode.op1] := rfl
  have hlock : parseScript "2 0x93" = .ok [Opcode.op1 + 1, 0x93] := rfl
  have hrefused : parseScript "² 0x93" = .error .malformedDecimal := rfl
  have heval : ∀ u l, parseScript "1" = .ok u → parseScript "2 0x93" = .ok l →
      ∃ e, evaluate ⟨.default, some rejectAll, .standard⟩ u l = .ok e := by
    intro u l hu hl
    cases hunlock.symm.trans hu
    cases hlock.symm.trans hl
    exact ⟨_, rfl⟩
  refine ⟨heval, ?_, ?_⟩
  · refine ((text_readers_ends_iff _).2.2.2 _ _ _ _ _ heval).mpr ⟨?_, fun _ => ?_⟩
    · rw [← parseScript_ends_iff, hunlock]
      trivial
    · rw [← parseScript_ends_iff, hlock]
      trivial
  · rw [(text_readers_ends_iff _).2.2.2 _ _ _ _ _ fun u l _ hl => nomatch hrefused.symm.trans hl]
    intro h
    have hread := h.2 ⟨_, hunlock⟩
    rw [← parseScript_ends_iff, hrefused] at hread
    cases hread

/-- A superscript is a digit that stands for no number, and the fault is neither one of script text nor of parsing. -/
theorem superscript_escapes :
    Script.ofAsm "²" = .error .malformedDecimal ∧ Script.ofText "²" = .error .malformedDecimal ∧
    parseScript "²" = .error .malformedDecimal ∧ Fault.malformedDecimal.isScriptFault = false ∧
    ∀ env tag expected lock label, run env tag expected ⟨.text "²", lock, label⟩ = .error .malformedDecimal :=
  ⟨rfl, rfl, rfl, rfl, fun _ _ _ _ _ => rfl⟩

end TestVector

end SpendScript
