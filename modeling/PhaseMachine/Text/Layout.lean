/-
How numbers and texts are laid out: numbers in hexadecimal, texts in columns and between quotes. A width is
a minimum: a longer text is never cut. Single quotes are the rule; double quotes serve a text that holds a
single quote and no double one. The quote in use, the backslash, line ends and all code points that are not
printable, surrogates among them, are escaped.
-/
import PhaseMachine.Text.CodePoint
import PhaseMachine.Text.Printable

namespace PhaseMachine.Text

/-! ## Columns -/

def upperHexDigits (n : Nat) : List Char :=
  (Nat.toDigits 16 n).map Char.toUpper

/-- Zeros on the left up to the width. -/
def zeroPad (width : Nat) (digits : List Char) : List Char :=
  List.replicate (width - digits.length) '0' ++ digits

/-- A number in upper-case hexadecimal, padded with zeros. The sign counts in the width. -/
def hex (width : Nat) : Int → String
  | .ofNat n => String.ofList (zeroPad width (upperHexDigits n))
  | .negSucc n => String.ofList ('-' :: zeroPad (width - 1) (upperHexDigits (n + 1)))

/-- A code point in lower-case hexadecimal, padded with zeros. -/
def lowerHex (width n : Nat) : List Char :=
  zeroPad width (Nat.toDigits 16 n)

def padLeft (width : Nat) (s : String) : String :=
  String.ofList (List.replicate (width - s.length) ' ') ++ s

def padRight (width : Nat) (s : String) : String :=
  s ++ String.ofList (List.replicate (width - s.length) ' ')

/-! ## Quotes -/

/-- The quote that a text is put between. -/
def quoteFor (cs : List Char) : Char :=
  if cs.contains '\'' && !cs.contains '"' then '"' else '\''

/-- A character between quotes: itself, a short escape, or its code point in two, four or eight
hexadecimal digits. -/
def escape (quote c : Char) : List Char :=
  if c = quote ∨ c = '\\' then ['\\', c]
  else if c = '\t' then ['\\', 't']
  else if c = '\n' then ['\\', 'n']
  else if c = '\r' then ['\\', 'r']
  else if isPrintable c then [c]
  else if c.toNat ≤ 0xFF then '\\' :: 'x' :: lowerHex 2 c.toNat
  else if c.toNat ≤ 0xFFFF then '\\' :: 'u' :: lowerHex 4 c.toNat
  else '\\' :: 'U' :: lowerHex 8 c.toNat

/-- A code point between quotes. A surrogate is escaped in four digits. -/
def escapeCode (quote : Char) (n : Nat) : List Char :=
  if isSurrogate n then '\\' :: 'u' :: lowerHex 4 n else escape quote (Char.ofNat n)

def quoted (s : String) : String :=
  let quote := quoteFor s.toList
  String.ofList (quote :: (codes s.toList).flatMap (escapeCode quote) ++ [quote])

end PhaseMachine.Text
