/-
What an instruction asks for, once its fields have been looked up in storage. Looking up finds every
flaw of the instruction; carrying out what was found cannot fail.
-/
import PhaseMachine.Execution.Malformed
import PhaseMachine.Instruction.Opcode
import PhaseMachine.Storage.Memory

namespace PhaseMachine

/-- Why an instruction cannot be carried out: a flaw, or a field of the wrong kind. -/
inductive Fault where
  | flaw (f : Flaw)
  | misuse (m : Misuse)
deriving DecidableEq, Repr

/-- An operand that was looked up: the register it stands for, if any, and its value. -/
structure Source where
  register? : Option String
  value : Int
deriving DecidableEq, Repr

def Source.name (s : Source) : String :=
  s.register?.getD "CPU"

/-- What there is to do. Registers are given as they are before it is done. -/
inductive Action where
  /-- Sets a register to the value of an operand. -/
  | set (destination : Register) (source : Source)
  /-- Sets a register to the result of an operation on two operands. -/
  | compute (destination : Register) (a b : Source) (result : Int)
  /-- Sets a register to the value at an address, which may have come as a truth value. -/
  | loadCell (destination : Register) (address : Int) (asFlag : Bool)
  /-- Sets the value at an address, which is `old` before, to that of a register. -/
  | storeCell (source : Register) (address old : Int)
  | nothing

namespace Storage

/-! ## Looking up -/

def namedRegister (s : Storage) (part : Part) : Field String → Except Fault Register
  | .absent => .error (.flaw (.missing part))
  | .given name => (s.registers.get name).mapError fun e => .flaw (.unknownRegister e.name part)
  | .foreign v => .error <|
    if !v.isAtomic then .misuse .wrongKind
    else if v.isWritable then .flaw (.unknownRegister v.text part)
    else .misuse .unwritable

/-- Why an address that is no integer cannot be used. -/
def strangeAddress (s : Storage) : Value → Misuse
  -- a number may still be outside memory, which cannot be said of it in hexadecimal
  | .float x =>
    if 0.0 ≤ x ∧ x < floatOfInt s.memory.size then .wrongKind else .noHexForm (Value.float x).kind
  | _ => .wrongKind

/-- The address in a field and the cell there. -/
def addressedCell (s : Storage) (address : Field Int) : Except Fault (Int × Cell) :=
  let cellAt (a : Int) : Except Fault (Int × Cell) :=
    match s.memory.find? a with
    | some c => .ok (a, c)
    | none => .error (.flaw (.outsideMemory a))
  match address with
  | .absent => .error (.flaw (.missing .address))
  | .given a => cellAt a
  -- a truth value counts as 0 or 1
  | .foreign (.bool b) => cellAt b.toNat
  | .foreign v => .error (.misuse (s.strangeAddress v))

def operandSource (s : Storage) (part : Part) : Option Operand → Except Fault Source
  | none => .error (.flaw (.missing part))
  | some (.literal value) => .ok ⟨none, value⟩
  | some (.register name) => do
    let r ← s.namedRegister part (.given name)
    return ⟨some name, r.value⟩

end Storage

/-! ## Actions of instructions -/

namespace Instruction

def moveAction (i : Instruction) (s : Storage) : Except Fault Action := do
  let destination ← s.namedRegister .destination i.destination
  let source ← s.operandSource .operand1 i.operand1
  return .set destination source

/-- A load takes its value from memory if it has an address, and else from its first operand. -/
def loadAction (i : Instruction) (s : Storage) : Except Fault Action :=
  match i.address with
  | .absent => i.moveAction s
  | address => do
    let destination ← s.namedRegister .destination i.destination
    let (a, _) ← s.addressedCell address
    return .loadCell destination a address.isFlag

def storeAction (i : Instruction) (s : Storage) : Except Fault Action := do
  let source ← s.namedRegister .destination i.destination
  let (a, cell) ← s.addressedCell i.address
  return .storeCell source a cell.value

def computeAction (i : Instruction) (f : Int → Int → Int) (s : Storage) : Except Fault Action := do
  let destination ← s.namedRegister .destination i.destination
  let a ← s.operandSource .operand1 i.operand1
  let b ← s.operandSource .operand2 i.operand2
  return .compute destination a b (f a.value b.value)

/-- What the instruction asks for. -/
def action (i : Instruction) (s : Storage) : Except Fault Action :=
  match i.opcode with
  | .load => i.loadAction s
  | .store => i.storeAction s
  | .mov => i.moveAction s
  | o => match o.operation? with
    | some f => i.computeAction f s
    -- jumps and halt ask for nothing
    | none => .ok .nothing

end Instruction

end PhaseMachine
