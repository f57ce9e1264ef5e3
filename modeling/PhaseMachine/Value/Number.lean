/-
Values as numbers. Text counts as the number that it denotes, a truth value as 0 or 1; lists,
mappings and null are no numbers.
-/
import PhaseMachine.Value.Text

namespace PhaseMachine.Value

/-- Why a value is no integer. -/
inductive IntegerRefusal where
  | numeral (r : Numeral.Refusal)
  | notANumber
  | infinite
  | wrongKind (kind : String)
deriving DecidableEq, Repr

def IntegerRefusal.message : IntegerRefusal → String
  | numeral r => r.message
  | notANumber => "cannot convert float NaN to integer"
  | infinite => "cannot convert float infinity to integer"
  | wrongKind kind =>
    s!"int() argument must be a string, a bytes-like object or a real number, not '{kind}'"

/-- The value as an integer. A fraction is cut off. -/
def toInteger : Value → Except IntegerRefusal Int
  | bool b => .ok b.toNat
  | int i => .ok i
  | float x =>
    if x.isNaN then .error .notANumber
    else if x.isInf then .error .infinite
    else .ok (Numeral.truncated x)
  | str s => (Numeral.read 10 s).mapError .numeral
  | v => .error (.wrongKind v.kind)

/-- Why a value is no floating-point number: it is no number, or an integer out of range. -/
inductive FloatRefusal where
  | notANumber
  | tooLarge
deriving DecidableEq, Repr

/-- The message for an integer out of the range of floating point. -/
def tooLargeMessage : String :=
  "int too large to convert to float"

def toFloat : Value → Except FloatRefusal Float
  | bool b => .ok (floatOfInt b.toNat)
  | int i => match Numeral.floatOfInt? i with
    | some x => .ok x
    | none => .error .tooLarge
  | float x => .ok x
  | str s => match Numeral.readFloat? s with
    | some x => .ok x
    | none => .error .notANumber
  | _ => .error .notANumber

end PhaseMachine.Value
