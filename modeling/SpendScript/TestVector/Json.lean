import SpendScript.Fault
import SpendScript.Text.Literal

/-! # Data files

The text format of test vector files: literals written as lists, objects, texts, numbers and the three words. The
numbers `NaN`, `Infinity` and `-Infinity` are taken too. Texts hold no control characters. Lists and objects are
nested to a bounded depth. -/

namespace SpendScript.TestVector.Json

/-- The rest of a text after its first blanks. -/
def skipBlanks (cs : Text) : Text :=
  cs.dropWhile fun c => c == ' ' || c == '\t' || c == '\n' || c == '\r'

/-- The rest of a text after a given start. -/
def after? : (start text : Text) → Option Text
  | [], cs => some cs
  | s :: ss, c :: cs => if s = c then after? ss cs else none
  | _ :: _, [] => none

/-! ### Texts -/

/-- The code point of four hexadecimal digits, and the rest. -/
def readUnit? (cs : Text) : Option (CodePoint × Text) :=
  match cs with
  | a :: b :: c :: d :: rest => do
    let digits ← [a, b, c, d].mapM Bytes.hexValue?
    return (CodePoint.ofNat (digits.foldl (fun n d => 16 * n + d) 0), rest)
  | _ => none

/-- The second half of a pair that the escape at the front of a text gives, and the rest. -/
def readLow? (cs : Text) : Option (CodePoint × Text) := do
  let rest ← after? [Text.backslash, 'u'] cs
  let (low, rest) ← readUnit? rest
  if low.isLowSurrogate then some (low, rest) else none

/-- The code point that an escape of digits stands for, and the rest. Two escapes that are a pair stand for one;
    a half without the other stands for itself. -/
def readCode? (cs : Text) : Option (CodePoint × Text) := do
  let (unit, rest) ← readUnit? cs
  match unit.isHighSurrogate, readLow? rest with
  | true, some (low, rest) => some (CodePoint.ofPair unit low, rest)
  | _, _ => some (unit, rest)

/-- The code point that a one-letter escape stands for. -/
def escaped? (c : CodePoint) : Option CodePoint :=
  if c = Text.doubleQuote ∨ c = Text.backslash ∨ c = '/' then some c
  else if c = 'b' then some (.ofNat 8)
  else if c = 'f' then some (.ofNat 12)
  else if c = 'n' then some '\n'
  else if c = 'r' then some '\r'
  else if c = 't' then some '\t'
  else none

/-- The code point that an escape after its backslash stands for, and the rest. -/
def readEscape? : Text → Option (CodePoint × Text)
  | [] => none
  | c :: cs => if c = 'u' then readCode? cs else (escaped? c).map (·, cs)

/-- The text up to its closing quote, after what is read of it already in reverse, and the rest. -/
def readText? : (fuel : Nat) → (read : Text) → Text → Option (Text × Text)
  | 0, _, _ => none
  | _, _, [] => none
  | fuel + 1, read, c :: cs =>
    if c = Text.doubleQuote then some (read.reverse, cs)
    else if c = Text.backslash then
      match readEscape? cs with
      | none => none
      | some (c, rest) => readText? fuel (c :: read) rest
    else if c.val < 0x20 then none
    else readText? fuel (c :: read) cs

/-! ### Numbers -/

def isAsciiDigit (c : CodePoint) : Bool := 0x30 ≤ c.val && c.val ≤ 0x39

/-- The number that ASCII digits stand for. -/
def digitsValue (digits : Text) : Nat := digits.foldl (fun n c => 10 * n + (c.val - 0x30)) 0

/-- The digits that a text starts with, at least one, and the rest. -/
def readDigits? (cs : Text) : Option (Text × Text) :=
  let digits := cs.takeWhile isAsciiDigit
  if digits = [] then none else some (digits, cs.dropWhile isAsciiDigit)

/-- The whole part of a number: zero, or digits that do not start with zero; and the rest. -/
def readWhole? (cs : Text) : Option (Text × Text) :=
  match cs with
  | [] => none
  | c :: rest => if c = '0' then some ([c], rest) else readDigits? cs

/-- The digits after a point, and the rest. -/
def readFraction? (cs : Text) : Option (Text × Text) := after? "." cs >>= readDigits?

/-- The exponent that a text starts with, and the rest. -/
def readExponent? (cs : Text) : Option (Int × Text) := do
  let rest ← (after? "e" cs).or (after? "E" cs)
  match after? "-" rest with
  | some rest => (readDigits? rest).map fun (digits, rest) => (-(digitsValue digits : Int), rest)
  | none => (readDigits? ((after? "+" rest).getD rest)).map fun (digits, rest) => (digitsValue digits, rest)

/-- A number and the rest. It is real if it has a fraction or an exponent. Integers of too many digits are
    refused. -/
def readNumber (cs : Text) : Except Fault (Literal × Text) :=
  let negative := cs.head? == some (CodePoint.ofChar '-')
  match readWhole? (if negative then cs.drop 1 else cs) with
  | none => .error .malformedJson
  | some (whole, rest) =>
    match readFraction? rest, readExponent? ((readFraction? rest).elim rest (·.2)) with
    | none, none =>
      match Text.readNat? whole with
      | none => .error .malformedDecimal
      | some n => .ok (.integer (if negative then -n else n), rest)
    | fraction, exponent =>
      let places := fraction.elim [] (·.1)
      let rest := exponent.elim (fraction.elim rest (·.2)) (·.2)
      .ok (.real (.ofDecimal negative (digitsValue (whole ++ places)) (exponent.elim 0 (·.1) - places.length)), rest)

/-! ### Values -/

/-- The most lists and objects that lie within each other. -/
def maxDepth : Nat := 990

/-- The words that stand for values, and the values. -/
def wordValues : List (Text × Literal) :=
  [("null", .null), ("true", .bool true), ("false", .bool false), ("NaN", .real .nan),
   ("Infinity", .real (.infinite false)), ("-Infinity", .real (.infinite true))]

/-- A value that starts with neither a quote nor a bracket, and the rest. -/
def readScalar (cs : Text) : Except Fault (Literal × Text) :=
  match wordValues.findSome? fun (word, value) => (after? word cs).map (value, ·) with
  | some found => .ok found
  | none => readNumber cs

/-- Fields with one more. A name that is among them keeps its place and takes the new value. -/
def setField (fields : List (Text × Literal)) (name : Text) (value : Literal) : List (Text × Literal) :=
  if fields.any (·.1 == name) then fields.map fun field => if field.1 == name then (name, value) else field
  else fields ++ [(name, value)]

def openList : CodePoint := '['
def closeList : CodePoint := ']'
def openObject : CodePoint := .ofNat 0x7b
def closeObject : CodePoint := .ofNat 0x7d

/-- The name of a field and what follows its colon. -/
def readName? (fuel : Nat) (cs : Text) : Option (Text × Text) := do
  let rest ← after? [Text.doubleQuote] cs
  let (name, rest) ← readText? fuel [] rest
  let rest ← after? ":" (skipBlanks rest)
  return (name, skipBlanks rest)

mutual

/-- Reads the value that a text starts with; `depth` more brackets may be opened. -/
def readValue : (fuel depth : Nat) → Text → Except Fault (Literal × Text)
  | 0, _, _ => .error .malformedJson
  | _, _, [] => .error .malformedJson
  | fuel + 1, depth, c :: cs =>
    if c = Text.doubleQuote then
      match readText? fuel.succ [] cs with
      | some (text, rest) => .ok (.text text, rest)
      | none => .error .malformedJson
    else if c = openList then
      match depth, after? [closeList] (skipBlanks cs) with
      | 0, _ => .error .nestedTooDeep
      | _ + 1, some rest => .ok (.list [], rest)
      | depth + 1, none => (readItems fuel depth (skipBlanks cs)).map fun (items, rest) => (.list items, rest)
    else if c = openObject then
      match depth, after? [closeObject] (skipBlanks cs) with
      | 0, _ => .error .nestedTooDeep
      | _ + 1, some rest => .ok (.record [], rest)
      | depth + 1, none => (readFields fuel depth [] (skipBlanks cs)).map fun (fields, rest) => (.record fields, rest)
    else readScalar (c :: cs)

/-- Reads the items of a list up to its closing bracket. -/
def readItems : (fuel depth : Nat) → Text → Except Fault (List Literal × Text)
  | 0, _, _ => .error .malformedJson
  | fuel + 1, depth, cs => do
    let (item, rest) ← readValue fuel depth cs
    match skipBlanks rest with
    | c :: rest =>
      if c = closeList then return ([item], rest)
      else if c = ',' then
        let (items, rest) ← readItems fuel depth (skipBlanks rest)
        return (item :: items, rest)
      else .error .malformedJson
    | [] => .error .malformedJson

/-- Reads the fields of an object up to its closing bracket. -/
def readFields : (fuel depth : Nat) → (fields : List (Text × Literal)) → Text →
    Except Fault (List (Text × Literal) × Text)
  | 0, _, _, _ => .error .malformedJson
  | fuel + 1, depth, fields, cs =>
    match readName? fuel.succ cs with
    | none => .error .malformedJson
    | some (name, rest) => do
      let (value, rest) ← readValue fuel depth rest
      let fields := setField fields name value
      match skipBlanks rest with
      | c :: rest =>
        if c = closeObject then return (fields, rest)
        else if c = ',' then readFields fuel depth fields (skipBlanks rest)
        else .error .malformedJson
      | [] => .error .malformedJson

end

/-- Reads a whole text as one value. An item takes two steps of the reader and at least one code point, so the
    steps suffice. -/
def parse (text : Text) : Except Fault Literal := do
  let cs := skipBlanks text
  let (value, rest) ← readValue (2 * cs.length + 1) maxDepth cs
  if skipBlanks rest = [] then return value else .error .malformedJson

end SpendScript.TestVector.Json
