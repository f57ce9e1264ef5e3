/-
Integers written as text: a sign, then digits of any script with single underscores between them,
white space around the whole. In base 16 the letters are digits too and `0x` may stand in front.
-/
import PhaseMachine.Text.Character
import PhaseMachine.Text.Layout

namespace PhaseMachine.Numeral

open Text

/-- Whether a character may surround a numeral: white space, except the four ASCII separators. -/
def isMargin (c : Char) : Bool :=
  isBlank c && !(0x1C ≤ c.toNat && c.toNat ≤ 0x1F)

/-- The value of a character as a digit of the base: a decimal digit of any script, or an ASCII
letter. -/
def digitValue? (base : Nat) (c : Char) : Option Nat :=
  ((decimalValue? c).or (hexValue? c)).filter (· < base)

/-- The rest of a numeral after a first part of value `acc`. An underscore stands between two
digits. -/
def digitsFrom? (base acc : Nat) : List Char → Option Nat
  | [] => some acc
  | '_' :: c :: cs => (digitValue? base c).bind fun d => digitsFrom? base (acc * base + d) cs
  | c :: cs => (digitValue? base c).bind fun d => digitsFrom? base (acc * base + d) cs

def digits? (base : Nat) : List Char → Option Nat
  | [] => none
  | c :: cs => (digitValue? base c).bind fun d => digitsFrom? base d cs

/-- The numeral after the mark of base 16, which may be left out and may have an underscore after
it. -/
def unmarked (base : Nat) : List Char → List Char
  | '0' :: x :: cs =>
    if base = 16 ∧ (x = 'x' ∨ x = 'X') then
      match cs with
      | '_' :: ds => ds
      | ds => ds
    else '0' :: x :: cs
  | cs => cs

/-- A text cut into its sign, negative or not, and the rest. -/
def signed : List Char → Bool × List Char
  | '-' :: cs => (true, cs)
  | '+' :: cs => (false, cs)
  | cs => (false, cs)

/-- The integer that the characters denote in the base. -/
def readChars? (base : Nat) (cs : List Char) : Option Int :=
  let (negative, body) := signed (trimBy isMargin cs)
  (digits? base (unmarked base body)).map fun n => if negative then -(n : Int) else n

/-! ## Long numerals -/

/-- The most digits that a numeral in base 10 may have. The other bases are powers of two and have no
such limit. -/
def maxDigits : Nat := 4300

/-- How many digits stand at the start of a text, without the single underscores between them. None
if an underscore stands anywhere else among them. -/
def leadingDigits? (base : Nat) : List Char → Option Nat
  | [] => some 0
  | ['_'] => none
  | '_' :: c :: cs =>
    if (digitValue? base c).isSome then (leadingDigits? base cs).map (· + 1) else none
  | c :: cs => if (digitValue? base c).isSome then (leadingDigits? base cs).map (· + 1) else some 0

/-- How many digits a numeral in base 10 starts with, if they are too many. -/
def excess? (cs : List Char) : Option Nat :=
  match (signed (trimBy isMargin cs)).2 with
  | '_' :: _ => none
  | body => (leadingDigits? 10 body).filter (maxDigits < ·)

/-! ## Reading -/

/-- Why no integer is read: the text denotes none in its base, or it has too many digits, whatever
comes after them. -/
inductive Refusal where
  | notANumeral (base : Nat) (text : String)
  | tooLong (digits : Nat)
deriving DecidableEq, Repr

/-- The text is shown in quotes, cut after two hundred characters. -/
def Refusal.message : Refusal → String
  | notANumeral base text =>
    s!"invalid literal for int() with base {base}: {String.ofList ((quoted text).toList.take 200)}"
  | tooLong digits =>
    s!"Exceeds the limit ({maxDigits} digits) for integer string conversion: value has {digits} digits; "
      ++ "use sys.set_int_max_str_digits() to increase the limit"

/-- The integer that the characters denote in the base, within the limit. -/
def readChars (base : Nat) (cs : List Char) : Except Refusal Int :=
  match if base = 10 then excess? cs else none with
  | some digits => .error (.tooLong digits)
  | none => match readChars? base cs with
    | some i => .ok i
    | none => .error (.notANumeral base (String.ofList cs))

def read (base : Nat) (s : String) : Except Refusal Int :=
  readChars base s.toList

/-! ## Writing -/

/-- The least number with too many digits in base 10. -/
def writingLimit : Nat :=
  Nat.pow 10 maxDigits

/-- Whether an integer can be written in base 10: it has no more digits than could be read. -/
def isWritable (i : Int) : Bool :=
  i.natAbs < writingLimit

/-- The message for an integer that cannot be written. -/
def unwritableMessage : String :=
  s!"Exceeds the limit ({maxDigits} digits) for integer string conversion; "
    ++ "use sys.set_int_max_str_digits() to increase the limit"

end PhaseMachine.Numeral
