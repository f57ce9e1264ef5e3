/-
The game: three registers, a level, and energy that accepted actions use up. Once the energy is used
up, the game is over.
-/
import PhaseMachine.Game.Rules
import PhaseMachine.Instruction.Opcode
import PhaseMachine.Log.Event

namespace PhaseMachine

structure Game (τ : Type) where
  maxEnergy : τ
  registers : RegisterBank
  level : Int := 1
  energy : τ
  cycle : Nat := 0
  playing : Bool := false
  rolls : Game.Rolls τ

namespace Game

/-- The registers of every game. -/
def startingBank : RegisterBank where
  registers := [
    { name := "R1", description := "Register 1" },
    { name := "R2", description := "Register 2" },
    { name := "R3", description := "Register 3 (Accumulator)" }
  ]
  nodup := by decide

variable {τ : Type} [Quantity τ]

def defaultEnergy : τ :=
  Quantity.ofInt 100

def make (maxEnergy : τ) (rolls : Rolls τ) : Game τ :=
  { maxEnergy, registers := startingBank, energy := maxEnergy, rolls }

def start (g : Game τ) (level : Int) : Game τ :=
  { g with
    level, energy := g.maxEnergy, cycle := 0, registers := g.registers.reset, playing := true }

/-! ## Actions -/

def valueOf? (registers : RegisterBank) : Option Operand → Option Int
  | none => none
  | some (.literal value) => some value
  | some (.register name) => registers.value? name

/-- The value that an instruction gives to its destination. -/
def result? (registers : RegisterBank) (i : Instruction) : Option Int :=
  match i.opcode with
  -- only literals are moved and loaded
  | .load | .mov => match i.operand1 with
    | some (.literal value) => some value
    | _ => none
  | o => do
    let a ← valueOf? registers i.operand1
    let b ← valueOf? registers i.operand2
    o.compute? a b

def apply (registers : RegisterBank) (i : Instruction) : RegisterBank :=
  match destinationName? i.destination, result? registers i with
  | some name, some value => registers.write name value
  -- without destination or result they stay as they are
  | _, _ => registers

/-- The charge for an instruction as things are, and the rolls after it. -/
def chargeFor (g : Game τ) (i : Instruction) : Charge τ × Rolls τ :=
  charge i g.registers.registers g.level g.rolls

/-- Why an action fails, if it does: the rules fail on it, or its destination cannot be looked up. -/
def misuse? (g : Game τ) (i : Instruction) : Option Misuse :=
  (chargeMisuse? i g.level).or (if canBeLookedUp i.destination then none else some .wrongKind)

/-- The game after an action is accepted for a charge. -/
def accept (g : Game τ) (i : Instruction) (cycles : Nat) (cost : τ) : Game τ :=
  let energy := Quantity.atLeast Quantity.zero (g.energy - cost)
  { g with
    registers := apply g.registers i
    cycle := g.cycle + cycles
    energy
    playing := g.playing && !(energy ≤ Quantity.zero) }

/-- The game after an action. A rejected action changes nothing, and neither does one that fails. -/
def act (g : Game τ) (i : Instruction) : Game τ :=
  if (chargeMisuse? i g.level).isSome then g
  else
    let (charge, rolls) := g.chargeFor i
    let charged := { g with rolls }
    match charge with
    | .rejected _ _ _ => charged
    | .accepted cycles cost =>
      -- a roll that was taken before the action failed stays taken
      if (g.misuse? i).isSome then charged else charged.accept i cycles cost

/-- What an action reports. One that fails reports nothing. -/
def actLog (g : Game τ) (i : Instruction) : List Event :=
  if (g.misuse? i).isSome then []
  else match (g.chargeFor i).1.error? with
    | some error => [.rejected error]
    | none =>
      let after := g.act i
      if after.energy ≤ Quantity.zero then [.exhausted after.cycle] else []

end Game

end PhaseMachine
