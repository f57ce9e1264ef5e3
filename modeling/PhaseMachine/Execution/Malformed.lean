/-
Malformed instructions: what an instruction needs and does not have. Whether one is malformed hangs
on its own fields, the names of the registers and the size of memory.
-/
import PhaseMachine.Instruction.Basic

namespace PhaseMachine

/-- The fields that an instruction may need. -/
inductive Part where
  | destination | operand1 | operand2 | address
deriving DecidableEq, Repr

def Part.name : Part → String
  | destination => "destination"
  | operand1 => "operand1"
  | operand2 => "operand2"
  | address => "address"

/-- What is wrong with an instruction. -/
inductive Flaw where
  | missing (part : Part)
  | unknownRegister (name : String) (part : Part)
  | outsideMemory (address : Int)
deriving DecidableEq, Repr

namespace Flaw

def part : Flaw → Part
  | missing part => part
  | unknownRegister _ part => part
  | outsideMemory _ => .address

def reason : Flaw → String
  | missing part => s!"missing {part.name}"
  | unknownRegister name part => s!"unknown register '{name}' in {part.name}"
  | outsideMemory address => s!"address 0x{Text.hex 4 address} is outside memory"

end Flaw

/-- A malformed instruction as it is reported: its label, its opcode and its flaw. -/
structure Malformed where
  label : String
  opcode : Opcode
  flaw : Flaw
deriving DecidableEq, Repr

def Malformed.message (m : Malformed) : String :=
  s!"Malformed {m.opcode.name} instruction '{m.label}': {m.flaw.reason}"

/-- The id that an instruction is reported by, a question mark without one. -/
def Instruction.label (i : Instruction) : String :=
  if i.id.truthy then i.id.text else "?"

def Instruction.malformed (i : Instruction) (flaw : Flaw) : Malformed :=
  { label := i.label, opcode := i.opcode, flaw }

/-- Why an instruction stops what is under way. -/
inductive Failure where
  | malformed (m : Malformed)
  | misuse (m : Misuse)
deriving DecidableEq, Repr

end PhaseMachine
