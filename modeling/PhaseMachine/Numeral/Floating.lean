/-
Floating-point numbers as text. Written, a number has the fewest digits that read back as it,
positional from a ten-thousandth up to sixteen integer digits and with an exponent outside.
Read, it is a decimal numeral with an optional exponent, or infinity or not-a-number by name.
-/
import PhaseMachine.Number.Quantity
import PhaseMachine.Numeral.Integer
import PhaseMachine.Numeral.Shortest

namespace PhaseMachine.Numeral

open Text

/-! ## Parts of a number -/

def signBit (x : Float) : Bool :=
  x.toBits >>> 63 == 1

/-- The magnitude of a finite number other than zero. -/
def magnitude (x : Float) : Binary :=
  let bits := x.toBits.toNat
  let fraction := bits % Nat.pow 2 52
  let exponent : Nat := bits / Nat.pow 2 52 % Nat.pow 2 11
  if exponent = 0 then ⟨fraction, -1074, false⟩
  else ⟨fraction + Nat.pow 2 52, (exponent : Int) - 1075, fraction == 0 && 1 < exponent⟩

/-- The integer part of a finite number, cut toward zero. -/
def truncated (x : Float) : Int :=
  let b := magnitude x
  let n : Nat := b.m * Nat.pow 2 b.q.toNat / Nat.pow 2 (-b.q).toNat
  if signBit x then -(n : Int) else n

/-! ## Writing -/

/-- Digits with a point after the first `point` of them, which may lie outside the digits. -/
def positional (digits : List Char) (point : Int) : List Char :=
  if point ≤ 0 then '0' :: '.' :: List.replicate (-point).toNat '0' ++ digits
  else if digits.length ≤ point.toNat then
    digits ++ List.replicate (point.toNat - digits.length) '0' ++ ['.', '0']
  else digits.take point.toNat ++ '.' :: digits.drop point.toNat

/-- Digits with a point after the first of them, if there are more, and an exponent of at least two
digits. -/
def exponential (digits : List Char) (point : Int) : List Char :=
  let e := point - 1
  let mantissa := match digits with
    | [d] => [d]
    | d :: ds => d :: '.' :: ds
    | [] => []
  mantissa ++ 'e' :: (if e < 0 then '-' else '+') :: zeroPad 2 (Nat.toDigits 10 e.natAbs)

/-- The magnitude of a finite number as text. -/
def magnitudeText (x : Float) : List Char :=
  if x == 0.0 then "0.0".toList
  else
    let d := shortest (magnitude x)
    let digits := Nat.toDigits 10 d.digits
    let point := d.exponent + digits.length
    if -4 < point ∧ point ≤ 16 then positional digits point else exponential digits point

def floatText (x : Float) : String :=
  if x.isNaN then "nan"
  else
    let body := if x.isInf then "inf".toList else magnitudeText x
    String.ofList (if signBit x then '-' :: body else body)

/-! ## Reading -/

/-- The digits of other scripts as ASCII digits. -/
def asciiDigit (c : Char) : Char :=
  match decimalValue? c with
  | some d => Char.ofNat ('0'.toNat + d)
  | none => c

/-- The characters without their underscores, each of which has to stand between two digits.
`afterDigit` says whether a digit came just before. -/
def withoutUnderscores? (afterDigit : Bool) : List Char → Option (List Char)
  | [] => some []
  | '_' :: c :: cs =>
    if afterDigit && c.isDigit then (withoutUnderscores? true cs).map (c :: ·) else none
  | c :: cs => if c = '_' then none else (withoutUnderscores? c.isDigit cs).map (c :: ·)

def natOfDigits (ds : List Char) : Nat :=
  ds.foldl (fun n c => n * 10 + (c.toNat - '0'.toNat)) 0

/-- The number nearest to `m · 10 ^ e`. -/
def nearest (m : Nat) (e : Int) : Float :=
  let size := e + (Nat.toDigits 10 m).length
  -- exponents far out of range are not computed with
  if m = 0 ∨ size < -400 then 0.0
  else if 400 < size then 1.0 / 0.0
  else if e < 0 then Float.ofScientific m true (-e).toNat
  else Float.ofScientific m false e.toNat

/-- An exponent with its mark, or nothing. -/
def exponent? : List Char → Option Int
  | [] => some 0
  | mark :: cs =>
    let (negative, ds) := match cs with
      | '-' :: ds => (true, ds)
      | '+' :: ds => (false, ds)
      | ds => (false, ds)
    if (mark = 'e' ∨ mark = 'E') ∧ ds ≠ [] ∧ ds.all Char.isDigit then
      some (if negative then -(natOfDigits ds : Int) else natOfDigits ds)
    else none

/-- A decimal numeral without a sign. -/
def decimal? (cs : List Char) : Option Float :=
  let whole := cs.takeWhile Char.isDigit
  let (fraction, rest) := match cs.dropWhile Char.isDigit with
    | '.' :: r => (r.takeWhile Char.isDigit, r.dropWhile Char.isDigit)
    | r => ([], r)
  if whole ++ fraction = [] then none
  else (exponent? rest).map fun e => nearest (natOfDigits (whole ++ fraction)) (e - fraction.length)

/-- A number without a sign: infinity or not-a-number by name in any case, or a numeral. -/
def unsigned? (cs : List Char) : Option Float :=
  let name := String.ofList (cs.map Char.toLower)
  if name = "inf" ∨ name = "infinity" then some (1.0 / 0.0)
  else if name = "nan" then some (0.0 / 0.0)
  else decimal? cs

/-- The floating-point number that a text denotes. -/
def readFloat? (s : String) : Option Float :=
  (withoutUnderscores? false ((trimBy isMargin s.toList).map asciiDigit)).bind fun cs =>
    match cs with
    | '-' :: body => (unsigned? body).map (-·)
    | '+' :: body => unsigned? body
    | body => unsigned? body

/-- The number nearest to an integer, if the integer is in the range of floating point. -/
def floatOfInt? (i : Int) : Option Float :=
  let x := floatOfInt i
  if x.isInf then none else some x

end PhaseMachine.Numeral
