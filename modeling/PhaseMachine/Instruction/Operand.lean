/-
Operands. An operand is an integer or the name of a register. Read from text, whatever looks like
a decimal or hexadecimal numeral is an integer, and every other text names a register.
-/
import PhaseMachine.Value.Text

namespace PhaseMachine

inductive Operand where
  | literal (value : Int)
  | register (name : String)
deriving DecidableEq, Repr

namespace Operand

open Text

def text : Operand → String
  | literal value => s!"#{value}"
  | register name => name

/-- Whether the operand has a text: an integer may be too long to be written. -/
def isWritable : Operand → Bool
  | literal value => Numeral.isWritable value
  | register _ => true

def registerName? : Operand → Option String
  | literal _ => none
  | register name => some name

inductive Refusal where
  | blank
  | numeral (r : Numeral.Refusal)
  | unsupported (kind : String)
deriving DecidableEq, Repr

def Refusal.message : Refusal → String
  | blank => "Empty operand string."
  | numeral r => r.message
  | unsupported kind => s!"Unsupported operand type: {kind}"

/-- A text without one leading sign. -/
def unsigned : List Char → List Char
  | '+' :: cs => cs
  | '-' :: cs => cs
  | cs => cs

/-- Whether a text starts with the mark of base 16, in either case. -/
def hasHexMark : List Char → Bool
  | '0' :: x :: _ => x == 'x' || x == 'X'
  | _ => false

/-- Whether a text is made of digits, of which it has at least one. -/
def isDigits (cs : List Char) : Bool :=
  !cs.isEmpty && cs.all isDigit

/-- The operand that a text denotes. White space around it is ignored. A text that starts like a
number has to be one. -/
def parse (s : String) : Except Refusal Operand :=
  let cs := trim s.toList
  let body := unsigned cs
  let readIn (base : Nat) : Except Refusal Operand :=
    ((Numeral.readChars base cs).map literal).mapError .numeral
  if hasHexMark body then readIn 16
  else if isDigits body then readIn 10
  else if cs.isEmpty then .error .blank
  else .ok (register (String.ofList cs))

/-- The operand that a value denotes; null denotes none. -/
def ofValue : Value → Except Refusal (Option Operand)
  | .null => .ok none
  | .bool b => .ok (some (literal b.toNat))
  | .int i => .ok (some (literal i))
  | .str s => (parse s).map some
  | v => .error (.unsupported v.kind)

end Operand

end PhaseMachine
