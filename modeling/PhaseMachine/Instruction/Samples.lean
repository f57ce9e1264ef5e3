/-
Two sample programs: a calculator for two operands, and one step of a traffic light.
-/
import PhaseMachine.Instruction.Basic

namespace PhaseMachine.Samples

inductive Refusal where
  | operation (symbol : String)
  /-- An operand that no description can show. -/
  | unwritable
  | light (name : String)
deriving DecidableEq, Repr

def Refusal.message : Refusal → String
  | operation symbol => s!"Unsupported calculator operation: {Text.quoted symbol}"
  | unwritable => Numeral.unwritableMessage
  | light name => s!"Unknown traffic light state: {Text.quoted name}"

/-! ## Calculator -/

def calculatorResult : Int := 0x100

inductive Operation where
  | plus | minus | times | dividedBy
deriving DecidableEq, Repr

namespace Operation

def all : List Operation :=
  [plus, minus, times, dividedBy]

def symbol : Operation → String
  | plus => "+"
  | minus => "-"
  | times => "*"
  | dividedBy => "/"

def opcode : Operation → Opcode
  | plus => .add
  | minus => .sub
  | times => .mul
  | dividedBy => .div

def ofSymbol? (s : String) : Option Operation :=
  all.find? fun o => o.symbol == s

end Operation

/-- The program that loads both operands, combines them and stores the result. -/
def calculator (a b : Int) (o : Operation) : Program :=
  [
    { opcode := .load, operand1 := some (.literal a), destination := .given "R1"
      description := .str s!"Load {a} into register R1", id := .str "load1" },
    { opcode := .load, operand1 := some (.literal b), destination := .given "R2"
      description := .str s!"Load {b} into register R2", id := .str "load2" },
    { opcode := o.opcode, operand1 := some (.register "R1"), operand2 := some (.register "R2")
      destination := .given "R3"
      description := .str s!"Compute {a} {o.symbol} {b}", id := .str "compute" },
    { opcode := .store, destination := .given "R3", address := .given calculatorResult
      description := .str "Store result to memory", id := .str "store" }
  ]

/-- The calculator for the symbol of an operation. Its descriptions show both operands. -/
def calculatorFor (a b : Int) (symbol : String) : Except Refusal Program :=
  match Operation.ofSymbol? symbol with
  | some o =>
    if Numeral.isWritable a && Numeral.isWritable b then .ok (calculator a b o)
    else .error .unwritable
  | none => .error (.operation symbol)

/-! ## Traffic light -/

def lightOutput : Int := 0x200

inductive Light where
  | red | yellow | green
deriving DecidableEq, Repr

namespace Light

def all : List Light :=
  [red, yellow, green]

def name : Light → String
  | red => "RED"
  | yellow => "YELLOW"
  | green => "GREEN"

def lowerName : Light → String
  | red => "red"
  | yellow => "yellow"
  | green => "green"

def value : Light → Int
  | red => 0
  | yellow => 1
  | green => 2

def ofName? (s : String) : Option Light :=
  all.find? fun l => l.name == s

/-- The light that a change leads to. Red changes only if a car is waiting. -/
def change? (car : Bool) : Light → Option Light
  | red => if car then some green else none
  | green => some yellow
  | yellow => some red

end Light

def setOutput (next : Light) : Instruction :=
  { opcode := .mov, operand1 := some (.literal next.value), destination := .given "R3"
    description := .str s!"Set output to {next.name}", id := .str s!"set_{next.lowerName}" }

/-- The program that loads sensor and light, sets the output if the light changes, and stores the
output. -/
def trafficLight (light : Light) (car : Bool) : Program :=
  [
    { opcode := .load, operand1 := some (.literal (if car then 1 else 0)), destination := .given "R1"
      description := .str (if car then "Load sensor input: Car detected" else "Load sensor input: No car")
      id := .str "load_sensor" },
    { opcode := .load, operand1 := some (.literal light.value), destination := .given "R2"
      description := .str s!"Load current state: {light.name}", id := .str "load_state" }
  ]
  ++ ((light.change? car).map setOutput).toList ++
  [
    { opcode := .store, destination := .given "R3", address := .given lightOutput
      description := .str "Store output signal", id := .str "store_output" }
  ]

def trafficLightFor (name : String) (car : Bool) : Except Refusal Program :=
  match Light.ofName? name with
  | some l => .ok (trafficLight l car)
  | none => .error (.light name)

end PhaseMachine.Samples
