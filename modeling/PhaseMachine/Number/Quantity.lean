/-
Quantities: the numbers that measure time and energy. Timers, the bus log, the machine and the game
are defined over any type of quantities, so that one definition runs on floating point and is
reasoned about over exact fractions.
-/

namespace PhaseMachine

/-- Numbers with the operations that times and energies need. No law is assumed: floating point
has none of the usual ones. -/
class Quantity (τ : Type) extends Add τ, Sub τ, Mul τ, LT τ, LE τ where
  /-- An integer as a quantity, rounded to the nearest one if it has no exact counterpart. -/
  ofInt : Int → τ
  /-- The quantity nearest to `m / 10 ^ places`. -/
  decimal (m places : Nat) : τ
  decLT : DecidableLT τ
  decLE : DecidableLE τ

namespace Quantity

variable {τ : Type} [Quantity τ]

instance : DecidableLT τ := Quantity.decLT
instance : DecidableLE τ := Quantity.decLE

/-- The second quantity if it is above the first, else the first. An incomparable second quantity
never replaces the first. -/
def atLeast (floor x : τ) : τ :=
  if floor < x then x else floor

def zero : τ := ofInt 0

end Quantity

/-- An integer as a floating-point number, rounded to nearest, with ties to even. -/
def floatOfInt : Int → Float
  | .ofNat n => Float.ofScientific n false 0
  | .negSucc n => -Float.ofScientific (n + 1) false 0

instance : Quantity Float where
  ofInt := floatOfInt
  decimal m places := Float.ofScientific m true places
  decLT := inferInstance
  decLE := inferInstance

instance : Quantity Rat where
  ofInt := fun i => (i : Rat)
  decimal m places := mkRat m (Nat.pow 10 places)
  decLT := inferInstance
  decLE := inferInstance

end PhaseMachine
