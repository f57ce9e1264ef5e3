/-
Records of the history: one for each phase that was carried out, with the changes of values in registers
and memory that it made.
-/
import PhaseMachine.Execution.Phase
import PhaseMachine.Instruction.Basic

namespace PhaseMachine

structure RegisterChange where
  name : String
  old : Int
  new : Int
deriving DecidableEq, Repr

structure MemoryChange where
  address : Int
  old : Int
  new : Int
deriving DecidableEq, Repr

structure Record where
  cycle : Nat
  stage : Stage
  instruction : Instruction
  registerChanges : List RegisterChange := []
  memoryChanges : List MemoryChange := []

def RegisterChange.text (c : RegisterChange) : String :=
  s!"{c.name}: {c.old} -> {c.new}"

def MemoryChange.text (c : MemoryChange) : String :=
  s!"{Instruction.addressText c.address}: {c.old} -> {c.new}"

namespace Record

/-- Whether all values that were changed, before and after, can be written. -/
def isWritable (r : Record) : Bool :=
  (r.registerChanges.all fun c => Numeral.isWritable c.old && Numeral.isWritable c.new)
    && r.memoryChanges.all fun c => Numeral.isWritable c.old && Numeral.isWritable c.new

def changesText (r : Record) : String :=
  match r.registerChanges.map RegisterChange.text ++ r.memoryChanges.map MemoryChange.text with
  | [] => ""
  | changes => s!"  ({Value.separated changes})"

/-- The record as a line of a trace: cycle, phase, instruction and changes. -/
def line (r : Record) : Except Misuse String := do
  let assembly ← r.instruction.assembly
  if !r.isWritable then throw .unwritable
  return s!"{Text.padLeft 4 (toString r.cycle)} {Text.padRight 7 r.stage.name} {assembly}" ++ r.changesText

end Record

end PhaseMachine
