/-
Plain scalars as values. A scalar without quotes is null, a truth value or a number if it is written
like one, and else text. Integers come in base 2, 8, 10 and 16 and, with colons between the digits,
in base 60; a floating-point number has a point. A text has no value if it is not well-formed, or if it is
and something in it denotes nothing.
-/
import PhaseMachine.Numeral.Integer
import PhaseMachine.Value.Basic

namespace PhaseMachine.Yaml

/-! ## Refusals -/

inductive Refusal where
  | malformed
  /-- A scalar that is written like an integer and denotes none. -/
  | numeral (r : Numeral.Refusal)
  /-- A code point that no character has. -/
  | codePoint (n : Nat)
  /-- A number in base 60 whose first digit is out of the range of floating point. -/
  | tooManyDigits
deriving DecidableEq, Repr

namespace Refusal

/-- Whether a number is out of range, rather than wrong in itself. A code point is out of range if it
does not fit in 31 bits. -/
def isOverflow : Refusal → Bool
  | codePoint n => Nat.pow 2 31 ≤ n
  | tooManyDigits => true
  | _ => false

def message : Refusal → String
  | malformed => "the text is not well-formed"
  | numeral r => r.message
  | codePoint n =>
    if Nat.pow 2 31 ≤ n then "Python int too large to convert to C int"
    else "chr() arg not in range(0x110000)"
  | tooManyDigits => "int too large to convert to float"

end Refusal

/-! ## Scalars -/

def nullNames : List String :=
  ["", "~", "null", "Null", "NULL"]

def trueNames : List String :=
  ["yes", "Yes", "YES", "true", "True", "TRUE", "on", "On", "ON"]

def falseNames : List String :=
  ["no", "No", "NO", "false", "False", "FALSE", "off", "Off", "OFF"]

def colonParts : List Char → List (List Char)
  | [] => [[]]
  | ':' :: cs => [] :: colonParts cs
  | c :: cs => match colonParts cs with
    | part :: parts => (c :: part) :: parts
    | [] => [[c]]

def isOctalDigit (c : Char) : Bool :=
  '0' ≤ c && c ≤ '7'

def isBinaryDigit (c : Char) : Bool :=
  c == '0' || c == '1'

def isHexDigit (c : Char) : Bool :=
  (Text.hexValue? c).any (· < 16)

/-- The value of digits in a base. -/
def digitsValue (base : Nat) (cs : List Char) : Except Numeral.Refusal Nat :=
  -- underscores do not count, but there has to be a digit
  match cs.filter (· != '_') with
  | [] => .error (.notANumeral base "")
  | ds =>
    if base = 10 ∧ Numeral.maxDigits < ds.length then .error (.tooLong ds.length)
    else .ok (ds.foldl (fun n c => n * base + (Text.hexValue? c).getD 0) 0)

def areDigits (isDigit : Char → Bool) (cs : List Char) : Bool :=
  !cs.isEmpty && cs.all fun c => isDigit c || c == '_'

/-- Whether a text starts with a digit and goes on with digits and underscores. -/
def isDecimal : List Char → Bool
  | [] => false
  | c :: cs => c.isDigit && cs.all fun d => d.isDigit || d == '_'

/-- Whether a text is a digit of base 60: one digit, or two of which the first is below 6. -/
def isSexagesimalDigit : List Char → Bool
  | [c] => c.isDigit
  | [c, d] => '0' ≤ c && c ≤ '5' && d.isDigit
  | _ => false

/-! ## Integers -/

/-- The integer that a text without a sign denotes, if it is written like one. -/
def natural (cs : List Char) : Except Numeral.Refusal (Option Nat) :=
  match cs with
  | '0' :: 'b' :: ds => if areDigits isBinaryDigit ds then (digitsValue 2 ds).map some else .ok none
  | '0' :: 'x' :: ds => if areDigits isHexDigit ds then (digitsValue 16 ds).map some else .ok none
  | '0' :: _ => if areDigits isOctalDigit cs then (digitsValue 8 cs).map some else .ok none
  | _ => match colonParts cs with
    | [] => .ok none
    | first :: parts =>
      if isDecimal first && parts.all isSexagesimalDigit then
        ((first :: parts).mapM (digitsValue 10)).map fun digits =>
          some (digits.foldl (fun n d => n * 60 + d) 0)
      else .ok none

def integer (cs : List Char) : Except Numeral.Refusal (Option Int) :=
  let (negative, body) := Numeral.signed cs
  (natural body).map fun n? => n?.map fun n => if negative then -(n : Int) else n

/-! ## Floating-point numbers -/

/-- Whether a text is an exponent with its sign, or nothing. -/
def isExponent : List Char → Bool
  | [] => true
  | e :: sign :: ds =>
    (e == 'e' || e == 'E') && (sign == '-' || sign == '+') && !ds.isEmpty && ds.all Char.isDigit
  | _ => false

/-- Whether a text is digits with a point and perhaps an exponent. -/
def isFraction (cs : List Char) : Bool :=
  let inNumber := fun (c : Char) => c.isDigit || c == '_'
  match cs with
  | '.' :: c :: ds => c.isDigit && isExponent (ds.dropWhile inNumber)
  | _ => isDecimal (cs.takeWhile inNumber) && match cs.dropWhile inNumber with
    | '.' :: ds => isExponent (ds.dropWhile inNumber)
    | _ => false

def fractionValue (cs : List Char) : Float :=
  (Numeral.decimal? (cs.filter (· != '_'))).getD 0.0

/-- The digits of a number in base 60, the last of them first, if a text is written like one. -/
def sexagesimalDigits? (cs : List Char) : Option (List (List Char)) :=
  -- there are two digits at least, and the last has a fraction
  match (colonParts cs).reverse with
  | last :: second :: others =>
    let whole := last.takeWhile (· != '.')
    let fraction := (last.dropWhile (· != '.')).drop 1
    let first := (second :: others).getLastD second
    if last.contains '.' && isSexagesimalDigit whole && isDecimal first
        && (second :: others).dropLast.all isSexagesimalDigit
        && fraction.all fun c => c.isDigit || c == '_' then
      some (last :: second :: others)
    else none
  | _ => none

/-- A digit times a power of 60. -/
def scaled (digit : List Char) (place : Nat) : Except Refusal Float :=
  match Numeral.floatOfInt? (Nat.pow 60 place) with
  | some x => .ok (fractionValue digit * x)
  | none => .error .tooManyDigits

def sexagesimal (cs : List Char) : Except Refusal (Option Float) :=
  match sexagesimalDigits? cs with
  | none => .ok none
  | some digits => do
    let parts ← digits.zipIdx.mapM fun d => scaled d.1 d.2
    return some (parts.foldl (· + ·) 0.0)

/-- The number that a text without a sign denotes, if it is written like one. -/
def fraction (cs : List Char) : Except Refusal (Option Float) :=
  if [".inf", ".Inf", ".INF"].contains (String.ofList cs) then .ok (some (1.0 / 0.0))
  else if isFraction cs then .ok (some (fractionValue cs))
  else sexagesimal cs

/-- Whether a text starts with a point and a digit. -/
def startsWithPoint : List Char → Bool
  | '.' :: c :: _ => c.isDigit
  | _ => false

/-- The floating-point number that a text denotes, if it is written like one. -/
def floating (cs : List Char) : Except Refusal (Option Float) :=
  let (negative, body) := Numeral.signed cs
  -- not-a-number has no sign, and neither has a number that starts with its point
  if [".nan", ".NaN", ".NAN"].contains (String.ofList cs) then .ok (some (0.0 / 0.0))
  else if body.length < cs.length && startsWithPoint body then .ok none
  else (fraction body).map fun x? => x?.map fun x => if negative then -x else x

/-! ## Values -/

def resolve (s : String) : Except Refusal Value :=
  if nullNames.contains s then .ok .null
  else if trueNames.contains s then .ok (.bool true)
  else if falseNames.contains s then .ok (.bool false)
  else do
    match ← floating s.toList with
    | some x => return .float x
    | none => match ← (integer s.toList).mapError .numeral with
      | some i => return .int i
      | none => return .str s

end PhaseMachine.Yaml
