/-
Breakpoints: conditions on which a run stops. Each kind of condition looks at some of the fields;
the others do not matter to it, but breakpoints that differ in any field are different breakpoints.
-/
import PhaseMachine.Execution.Phase
import PhaseMachine.History.Record

namespace PhaseMachine

namespace Breakpoint

inductive Kind where
  /-- A phase was carried out. -/
  | phase
  /-- An instruction of an opcode was executed. -/
  | opcode
  /-- The instruction at a place in the program comes next. -/
  | instructionIndex
  /-- Memory was written at an address. -/
  | memoryWrite
  /-- A register holds a value. -/
  | registerValue
  /-- The value of a register is another one than before. -/
  | registerChange
deriving DecidableEq, Repr

namespace Kind

def all : List Kind :=
  [phase, opcode, instructionIndex, memoryWrite, registerValue, registerChange]

def name : Kind → String
  | phase => "PHASE_MATCH"
  | opcode => "OPCODE_MATCH"
  | instructionIndex => "INSTRUCTION_INDEX"
  | memoryWrite => "MEMORY_WRITE"
  | registerValue => "REGISTER_VALUE"
  | registerChange => "REGISTER_CHANGE"

def ofName? (s : String) : Option Kind :=
  all.find? fun k => k.name == s

end Kind

end Breakpoint

structure Breakpoint where
  kind : Breakpoint.Kind
  value : Option Int := none
  address : Option Int := none
  register : Option String := none
  phase : Option Phase := none
  opcode : Option Opcode := none
  enabled : Bool := true
deriving DecidableEq, Repr

namespace Breakpoint

abbrev Registers := List (String × Int)

/-- The value of the register that the condition is about. -/
def valueIn (b : Breakpoint) (registers : Registers) : Option Int :=
  b.register.bind fun name => registers.lookup name

/-- Whether the condition stops a run before the instruction at a place is fetched. -/
def meetsIndex (b : Breakpoint) (index : Nat) : Bool :=
  b.enabled && b.kind == .instructionIndex && b.value == some (index : Int)

def holdsValue (b : Breakpoint) (now : Registers) : Bool :=
  match b.valueIn now with
  | some v => b.value == some v
  | none => false

def sawChange (b : Breakpoint) (before now : Registers) : Bool :=
  match b.valueIn before, b.valueIn now with
  | some u, some v => u != v
  | _, _ => false

/-- Whether the condition stops a run after a record was made. -/
def meets (b : Breakpoint) (before now : Registers) (r : Record) : Bool :=
  b.enabled && match b.kind with
    | .phase => b.phase == some (.at r.stage)
    | .opcode => r.stage == .execute && b.opcode == some r.instruction.opcode
    | .memoryWrite => r.memoryChanges.any fun c => b.address == some c.address
    | .registerValue => b.holdsValue now
    | .registerChange => b.sawChange before now
    | .instructionIndex => false

end Breakpoint

end PhaseMachine
