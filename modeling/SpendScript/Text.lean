import SpendScript.Bytes

/-! # Texts

A text is a sequence of code points. Besides characters it may hold lone surrogates: a data file can spell one
and a message can show one, but no bytes stand for it. -/

namespace SpendScript

/-- A code point of Unicode: a character or a surrogate. -/
abbrev CodePoint := Fin 0x110000

abbrev Text := List CodePoint

namespace CodePoint

def ofChar (c : Char) : CodePoint :=
  ⟨c.toNat, by rcases c.valid with h | h <;> simp only [Char.toNat] <;> omega⟩

instance : Coe Char CodePoint := ⟨ofChar⟩

/-- The code point of a number, which has to be below their number. -/
def ofNat (n : Nat) : CodePoint := Fin.ofNat 0x110000 n

/-! ### Surrogates -/

/-- Whether a code point can be the first half of a pair. -/
def isHighSurrogate (c : CodePoint) : Bool := 0xd800 ≤ c.val && c.val < 0xdc00

/-- Whether a code point can be the second half of a pair. -/
def isLowSurrogate (c : CodePoint) : Bool := 0xdc00 ≤ c.val && c.val < 0xe000

def isSurrogate (c : CodePoint) : Bool := c.isHighSurrogate || c.isLowSurrogate

/-- The character that a pair of surrogates stands for. -/
def ofPair (high low : CodePoint) : CodePoint :=
  ofNat (0x10000 + (high.val - 0xd800) * 0x400 + (low.val - 0xdc00))

/-- The bytes of a character in UTF-8. A surrogate has none. -/
def utf8? (c : CodePoint) : Option Bytes :=
  if c.isSurrogate then none else some (String.utf8EncodeChar (Char.ofNat c.val))

end CodePoint

namespace Text

def ofString (s : String) : Text := s.toList.map CodePoint.ofChar

instance : Coe String Text := ⟨ofString⟩

/-- The bytes of a text in UTF-8. A text with a surrogate has none. -/
def utf8? (text : Text) : Option Bytes := (text.mapM CodePoint.utf8?).map List.flatten

/-- Texts one after another with a separator between each two. -/
def join (separator : Text) (parts : List Text) : Text := List.intercalate separator parts

end Text

end SpendScript
