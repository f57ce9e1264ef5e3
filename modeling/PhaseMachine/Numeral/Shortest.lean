/-
The shortest decimal of a binary floating-point number: the fewest digits that read back as the
number, and of those the nearest to it. A number `m · 2 ^ q` is the rounding of the reals in an
interval about it; one digit after another is allowed until a point of the decimal grid lies in
that interval.
-/

namespace PhaseMachine.Numeral

/-- The number `m · 2 ^ q`. It is at the foot of its binade if the next number below lies half as
far away as the next one above. -/
structure Binary where
  m : Nat
  q : Int
  foot : Bool
deriving DecidableEq, Repr

/-- The number `digits · 10 ^ exponent`. -/
structure Decimal where
  digits : Nat
  exponent : Int
deriving DecidableEq, Repr

/-- The order of `a · 10 ^ p` and `b · 2 ^ k`. -/
def compareScaled (a : Nat) (p : Int) (b : Nat) (k : Int) : Ordering :=
  compare (a * Nat.pow 10 p.toNat * Nat.pow 2 (-k).toNat) (b * Nat.pow 2 k.toNat * Nat.pow 10 (-p).toNat)

namespace Binary

/-- Whether a decimal lies in the interval of the reals that round to the number. -/
def covers (x : Binary) (d : Decimal) : Bool :=
  let low := compareScaled d.digits d.exponent (4 * x.m - (if x.foot then 1 else 2)) (x.q - 2)
  let high := compareScaled d.digits d.exponent (4 * x.m + 2) (x.q - 2)
  -- the ends belong to it if m is even
  if x.m % 2 = 0 then low != .lt && high != .gt else low == .gt && high == .lt

/-- The exponent of the first decimal digit. -/
def decimalExponent (x : Binary) : Int :=
  let top := x.m * Nat.pow 2 x.q.toNat
  let bottom := Nat.pow 2 (-x.q).toNat
  if bottom ≤ top then (Nat.toDigits 10 (top / bottom)).length - 1
  else
    let t := (Nat.toDigits 10 (bottom / top)).length
    if bottom = top * Nat.pow 10 (t - 1) then 1 - t else -t

def below (x : Binary) (p : Int) : Nat :=
  x.m * Nat.pow 2 x.q.toNat * Nat.pow 10 (-p).toNat / (Nat.pow 2 (-x.q).toNat * Nat.pow 10 p.toNat)

/-- The decimal of `k` digits that reads back as the number and is nearest to it. -/
def withDigits? (x : Binary) (k : Nat) : Option Decimal :=
  let p := x.decimalExponent - k + 1
  let f := x.below p
  let low : Decimal := ⟨f, p⟩
  let high : Decimal := ⟨f + 1, p⟩
  match x.covers low, x.covers high with
  | false, false => none
  | true, false => some low
  | false, true => some high
  | true, true =>
    match compareScaled (2 * f + 1) p (8 * x.m) (x.q - 2) with
    | .gt => some low
    | .lt => some high
    -- of two at one distance the even one is taken
    | .eq => some (if f % 2 = 0 then low else high)

end Binary

/-- The decimal without trailing zeros among its digits, of which at most `n` are taken off. -/
def Decimal.strip : Nat → Decimal → Decimal
  | 0, d => d
  | n + 1, d => if d.digits != 0 && d.digits % 10 == 0 then strip n ⟨d.digits / 10, d.exponent + 1⟩ else d

def shortest (x : Binary) : Decimal :=
  -- seventeen digits are enough for every number
  match ((List.range 17).findSome? fun k => x.withDigits? (k + 1)) with
  | some d => d.strip 18
  | none => ⟨0, 0⟩

end PhaseMachine.Numeral
