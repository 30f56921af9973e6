import SpendScript.Decimal.Layout
import SpendScript.Text.Quoted

/-! # Literals

Plain values of the kinds that data files hold, and the text in which a message shows one. -/

namespace SpendScript

/-- A plain value. -/
inductive Literal
  | null
  | bool (b : Bool)
  | integer (n : Int)
  | real (x : Decimal.Binary64)
  | text (t : Text)
  | list (items : List Literal)
  | record (fields : List (Text × Literal))
  deriving Inhabited

namespace Literal

/-- Numbers from a ten-thousandth to sixteen digits have their point in place; exponents have two digits. -/
def realLayout : Decimal.Layout := ⟨-4, 16, 2⟩

/-- A real number in the fewest digits that read back. -/
def realText : Decimal.Binary64 → Text
  | .nan => "nan"
  | .infinite negative => if negative then "-inf" else "inf"
  | .finite negative mantissa exponent => realLayout.write negative (Decimal.shortest mantissa exponent)

mutual

/-- A literal as a message shows it. -/
def shown : Literal → Text
  | null => "None"
  | bool true => "True"
  | bool false => "False"
  | integer n => Text.intText n
  | real x => realText x
  | text t => Text.quoted t
  | list items => "[" ++ Text.join ", " (shownAll items) ++ "]"
  | record fields => "\x7b" ++ Text.join ", " (shownFields fields) ++ "\x7d"

def shownAll : List Literal → List Text
  | [] => []
  | item :: items => item.shown :: shownAll items

def shownFields : List (Text × Literal) → List Text
  | [] => []
  | (name, value) :: fields => (Text.quoted name ++ ": " ++ value.shown) :: shownFields fields

end

/-- A literal as it stands within a message: a text as it is, anything else as it is shown. -/
def plain : Literal → Text
  | text t => t
  | value => value.shown

end Literal

end SpendScript
