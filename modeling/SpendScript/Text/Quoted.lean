import SpendScript.Text.Printable

/-! # Quoted text

A text is shown between quotes, with a backslash in front of what would be misread. Single quotes are used,
unless the text holds a single quote and no double quote. Code points that are not printable are shown by their
number in two, four or eight hexadecimal digits. -/

namespace SpendScript.Text

def singleQuote : CodePoint := .ofNat 0x27

def doubleQuote : CodePoint := .ofNat 0x22

def backslash : CodePoint := .ofNat 0x5c

/-- The lower-case hexadecimal digit of a number below sixteen. -/
def hexDigit (n : Nat) : CodePoint := CodePoint.ofNat (if n < 10 then 0x30 + n else 0x57 + n)

/-- The low `count` hexadecimal digits of a number, most significant first. -/
def hexDigits (count n : Nat) : Text :=
  (List.range count).reverse.map fun k => hexDigit (n / 16 ^ k % 16)

/-- A code point as it stands between quotes `quote`. -/
def escape (quote c : CodePoint) : Text :=
  if c = quote ∨ c = backslash then [backslash, c]
  else if c = '\t' then [backslash, 't']
  else if c = '\n' then [backslash, 'n']
  else if c = '\r' then [backslash, 'r']
  else if isPrintable c then [c]
  else if c.val < 0x100 then backslash :: 'x' :: hexDigits 2 c.val
  else if c.val < 0x10000 then backslash :: 'u' :: hexDigits 4 c.val
  else backslash :: 'U' :: hexDigits 8 c.val

/-- The quote that a text is shown in. -/
def quoteFor (text : Text) : CodePoint :=
  if text.contains singleQuote && !text.contains doubleQuote then doubleQuote else singleQuote

/-- The text between quotes. -/
def quoted (text : Text) : Text :=
  let q := quoteFor text
  q :: text.flatMap (escape q) ++ [q]

end SpendScript.Text
