/-
Instruction records. Opcode and operands are checked when a record is made. The other fields are
kept as they come: a field may hold a value of another kind than it is meant for, and only using it
shows that.
-/
import PhaseMachine.Instruction.Opcode
import PhaseMachine.Instruction.Operand
import PhaseMachine.Text.Layout

namespace PhaseMachine

/-- A field of a record: absent, given as it is meant, or holding a value of another kind. -/
inductive Field (α : Type) where
  | absent
  | given (a : α)
  | foreign (v : Value)
deriving Inhabited

namespace Field

/-- Whether the field is absent or as it is meant. -/
def isProper {α : Type} : Field α → Bool
  | foreign _ => false
  | _ => true

/-- Whether the field holds a truth value instead of what it is meant for. -/
def isFlag {α : Type} : Field α → Bool
  | foreign (.bool _) => true
  | _ => false

def ofText : Value → Field String
  | .null => absent
  | .str s => given s
  | v => foreign v

def ofNumber : Value → Field Int
  | .null => absent
  | .int i => given i
  | v => foreign v

end Field

/-- Why a field cannot be used: it has no hexadecimal form, it holds an integer that is too long to be
written, or the use asks for another kind altogether. -/
inductive Misuse where
  | noHexForm (kind : String)
  | unwritable
  | wrongKind
deriving DecidableEq, Repr

def Misuse.message : Misuse → String
  | noHexForm kind => s!"Unknown format code 'X' for object of type '{kind}'"
  | unwritable => Numeral.unwritableMessage
  | wrongKind => ""

/-- One instruction. A store takes its value from the register that `destination` names. -/
structure Instruction where
  opcode : Opcode
  operand1 : Option Operand := none
  operand2 : Option Operand := none
  destination : Field String := .absent
  address : Field Int := .absent
  description : Value := .str ""
  id : Value := .str ""
deriving Inhabited

abbrev Program := List Instruction

namespace Instruction

/-- Whether destination and address are absent or of the kind they are meant for. -/
def WellTyped (i : Instruction) : Prop :=
  i.destination.isProper ∧ i.address.isProper

instance (i : Instruction) : Decidable i.WellTyped :=
  inferInstanceAs (Decidable (_ ∧ _))

/-- Whether every integer that a text of the instruction shows in base 10 can be written. -/
def Writable (i : Instruction) : Prop :=
  i.operand1.all Operand.isWritable ∧ i.operand2.all Operand.isWritable ∧ i.id.isWritable

instance (i : Instruction) : Decidable i.Writable :=
  inferInstanceAs (Decidable (_ ∧ _ ∧ _))

/-! ## Making a record -/

/-- An operand on offer: a value still to be read, or an operand. -/
inductive OperandDraft where
  | value (v : Value)
  | made (o : Operand)

def OperandDraft.read : OperandDraft → Except Operand.Refusal (Option Operand)
  | value v => Operand.ofValue v
  | made o => .ok (some o)

/-- The fields of an instruction before any check. -/
structure Draft where
  opcode : Value
  operand1 : OperandDraft := .value .null
  operand2 : OperandDraft := .value .null
  destination : Value := .null
  address : Value := .null
  description : Value := .str ""
  id : Value := .str ""

/-- Why a draft is no instruction. -/
inductive Refusal where
  | opcode (v : Value)
  | operand (r : Operand.Refusal)

def Refusal.message : Refusal → String
  | opcode v => notAMember v "Opcode"
  | operand r => r.message

/-- The instruction of a draft: the opcode is checked first, then the operands in order. -/
def ofDraft (d : Draft) : Except Refusal Instruction := do
  let opcode ← (Opcode.ofValue d.opcode).mapError .opcode
  let operand1 ← d.operand1.read.mapError .operand
  let operand2 ← d.operand2.read.mapError .operand
  return {
    opcode, operand1, operand2
    destination := .ofText d.destination
    address := .ofNumber d.address
    description := d.description
    id := d.id
  }

/-! ## Assembly -/

/-- A memory address in hexadecimal between brackets. -/
def addressText (address : Int) : String :=
  s!"[0x{Text.hex 4 address}]"

/-- The address as assembly shows it. A truth value counts as 0 or 1. -/
def shownAddress : Field Int → Except Misuse (Option String)
  | .absent => .ok none
  | .given a => .ok (some (addressText a))
  | .foreign (.bool b) => .ok (some (addressText b.toNat))
  | .foreign v => .error (if v.isAtomic then .noHexForm v.kind else .wrongKind)

def shownDestination : Field String → Except Misuse (Option String)
  | .absent => .ok none
  | .given name => .ok (some name)
  | .foreign _ => .error .wrongKind

def shownOperand : Option Operand → Except Misuse (Option String)
  | none => .ok none
  | some o => if o.isWritable then .ok (some o.text) else .error .unwritable

/-- The instruction in assembly: mnemonic, destination, operands, address. -/
def assembly (i : Instruction) : Except Misuse String := do
  let operand1 ← shownOperand i.operand1
  let operand2 ← shownOperand i.operand2
  let address ← shownAddress i.address
  let destination ← shownDestination i.destination
  match [destination, operand1, operand2, address].filterMap (fun part => part) with
  | [] => return i.opcode.name
  | shown => return i.opcode.name ++ " " ++ Value.separated shown

end Instruction

end PhaseMachine
