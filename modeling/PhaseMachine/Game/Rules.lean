/-
The rules of the game: what an instruction costs, which registers it needs, and when it is rejected
or penalised. The chances of the game come as a row of rolls.
-/
import PhaseMachine.Instruction.Basic
import PhaseMachine.Number.Quantity
import PhaseMachine.Storage.Register

namespace PhaseMachine.Game

/-! ## Rolls -/

/-- The rolls still to come, and how many were taken. -/
structure Rolls (τ : Type) where
  ahead : List τ := []
  taken : Nat := 0
deriving Repr

def Rolls.next {τ : Type} [Quantity τ] (r : Rolls τ) : τ × Rolls τ :=
  match r.ahead with
  -- after the last roll every one is zero
  | [] => (Quantity.zero, { r with taken := r.taken + 1 })
  | x :: rest => (x, { ahead := rest, taken := r.taken + 1 })

/-! ## Costs -/

variable {τ : Type} [Quantity τ]

def half : τ :=
  Quantity.decimal 5 1

/-- The energy that an opcode costs while a number of registers is in use: its cycles, and half a
unit for each register. -/
def cost (o : Opcode) (inUse : τ) : τ :=
  Quantity.ofInt o.cycles + inUse * half

def inUse (registers : List Register) : Nat :=
  registers.countP fun r => r.value != 0

/-! ## Registers -/

/-- The register that a destination asks for. -/
def destinationName? : Field String → Option String
  -- an empty name asks for none
  | .given name => if name = "" then none else some name
  | _ => none

/-- What stands in the place of a name: a value of another kind that counts as true. -/
def foreignDestination? : Field String → Option Value
  | .foreign v => if v.truthy then some v else none
  | _ => none

/-- Whether a destination can be looked up among registers. No list and no mapping can. -/
def canBeLookedUp (destination : Field String) : Bool :=
  (foreignDestination? destination).all Value.isAtomic

/-- The registers that an instruction needs, those of its operands first. -/
def required (i : Instruction) : List String :=
  (i.operand1.bind Operand.registerName?).toList
  ++ (i.operand2.bind Operand.registerName?).toList
  ++ (destinationName? i.destination).toList

def missing (registers : List Register) (names : List String) : List String :=
  names.filter fun name => !(registers.map (·.name)).contains name

/-! ## Charging -/

/-- What an action costs, and whether it is accepted. A rejected one costs as much as it says, but
nobody pays. -/
inductive Charge (τ : Type) where
  | accepted (cycles : Nat) (energy : τ)
  | rejected (cycles : Nat) (energy : τ) (missing : List String)
deriving Repr

namespace Charge

omit [Quantity τ] in
def isAccepted : Charge τ → Bool
  | accepted _ _ => true
  | rejected _ _ _ => false

omit [Quantity τ] in
def cycles : Charge τ → Nat
  | accepted cycles _ => cycles
  | rejected cycles _ _ => cycles

omit [Quantity τ] in
def energy : Charge τ → τ
  | accepted _ energy => energy
  | rejected _ energy _ => energy

omit [Quantity τ] in
def error? : Charge τ → Option String
  | accepted _ _ => none
  | rejected _ _ missing => some s!"Registers not available: {Value.separated missing}"

end Charge

/-- The level above which arithmetic needs its registers. -/
def registerLevel : Int := 1

/-- The level above which accepted actions are rolled for. -/
def penaltyLevel : Int := 2

/-- Rolls above this are penalised. -/
def penaltyThreshold : τ :=
  Quantity.decimal 7 1

def penaltyCycles : Nat := 2

def penaltyEnergy : τ :=
  Quantity.ofInt 1

/-- Why the rules fail on an instruction at a level, if they do. -/
def chargeMisuse? (i : Instruction) (level : Int) : Option Misuse :=
  -- arithmetic looks its destination up, and from a level on reports it as missing, which takes text
  if i.opcode.isArithmetic ∧ (¬canBeLookedUp i.destination
      ∨ registerLevel < level ∧ (foreignDestination? i.destination).isSome) then some .wrongKind
  else none

/-- The registers for whose absence an instruction is rejected at a level. -/
def rejectedFor (i : Instruction) (registers : List Register) (level : Int) : List String :=
  if i.opcode.isArithmetic ∧ registerLevel < level then missing registers (required i) else []

/-- What an instruction costs at a level, and the rolls after it. -/
def charge (i : Instruction) (registers : List Register) (level : Int) (rolls : Rolls τ) :
    Charge τ × Rolls τ :=
  let cycles := i.opcode.cycles
  let energy : τ := cost i.opcode (Quantity.ofInt (inUse registers))
  match rejectedFor i registers level with
  | name :: names => (.rejected cycles (energy * half) (name :: names), rolls)
  | [] =>
    -- a roll is taken for an accepted instruction above the penalty level only
    if penaltyLevel < level then
      let (roll, rolls) := rolls.next
      if penaltyThreshold < roll then
        (.accepted (cycles + penaltyCycles) (energy + penaltyEnergy), rolls)
      else (.accepted cycles energy, rolls)
    else (.accepted cycles energy, rolls)

end PhaseMachine.Game
