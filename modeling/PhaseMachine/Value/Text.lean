/-
Values as text. The literal form shows the kind of a value: text in quotes, lists in brackets,
mappings in braces. The plain form differs for a text alone, which stands for itself. A value has no
text if an integer in it is too long to be written.
-/
import PhaseMachine.Value.Basic

namespace PhaseMachine.Value

/-- The parts with a separator between each two. -/
def separated (parts : List String) : String :=
  ", ".intercalate parts

mutual

def literal : Value → String
  | null => "None"
  | bool true => "True"
  | bool false => "False"
  | int i => toString i
  | float x => Numeral.floatText x
  | str s => Text.quoted s
  | list items => "[" ++ separated (literals items) ++ "]"
  | map entries => "\x7b" ++ separated (entryLiterals entries) ++ "\x7d"

def literals : List Value → List String
  | [] => []
  | v :: rest => literal v :: literals rest

def entryLiterals : List (Value × Value) → List String
  | [] => []
  | (k, v) :: rest => (literal k ++ ": " ++ literal v) :: entryLiterals rest

end

def text : Value → String
  | str s => s
  | v => literal v

/-- A number that may have come as a truth value, and is shown as it came. -/
def counted (n : Int) (asFlag : Bool) : Value :=
  if asFlag then bool (n != 0) else int n

mutual

/-- Whether the value has a text at all: every integer in it can be written. -/
def isWritable : Value → Bool
  | int i => Numeral.isWritable i
  | list items => areWritable items
  | map entries => haveWritable entries
  | _ => true

def areWritable : List Value → Bool
  | [] => true
  | v :: rest => isWritable v && areWritable rest

def haveWritable : List (Value × Value) → Bool
  | [] => true
  | (k, v) :: rest => isWritable k && isWritable v && haveWritable rest

end

end PhaseMachine.Value
