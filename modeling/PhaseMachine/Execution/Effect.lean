/-
The effect of carrying out an instruction: storage afterwards, the changes of values, the signals on
the buses and what the log says. An instruction that cannot be carried out has no effect.
-/
import PhaseMachine.Bus.Transfer
import PhaseMachine.Execution.Action
import PhaseMachine.History.Record
import PhaseMachine.Log.Event

namespace PhaseMachine

structure Effect where
  storage : Storage
  registerChanges : List RegisterChange := []
  memoryChanges : List MemoryChange := []
  signals : List Signal := []
  /-- The line that made way in the cache. -/
  evicted : Option Cache.Line := none

namespace Action

/-- Sets a register, which becomes active. -/
def setEffect (s : Storage) (destination : Register) (source : Source) : Effect :=
  {
    storage := { s with registers := s.registers.write destination.name source.value }
    registerChanges := [⟨destination.name, destination.value, source.value⟩]
    signals := [⟨.data, source.name, destination.name, source.value⟩]
  }

/-- The bank with the register of an operand active. -/
def activate (b : RegisterBank) (source : Source) : RegisterBank :=
  match source.register? with
  | some name => b.setActive name true
  | none => b

/-- Sets a register to a result. -/
def computeEffect (s : Storage) (destination : Register) (a b : Source) (result : Int) : Effect :=
  let written := s.registers.write destination.name result
  {
    -- the registers of the operands become active too
    storage := { s with registers := activate (activate written a) b }
    registerChanges := [⟨destination.name, destination.value, result⟩]
    signals := [
      ⟨.data, a.name, "ALU", a.value⟩,
      ⟨.data, b.name, "ALU", b.value⟩,
      ⟨.control, "ControlUnit", "ALU", 0⟩,
      ⟨.data, "ALU", destination.name, result⟩
    ]
  }

/-- Sets a register to what the cache answers for an address. -/
def loadEffect (s : Storage) (cycle : Int) (destination : Register) (address : Int)
    (asFlag : Bool) : Effect :=
  let (cache, access) := s.cache.check address (s.memory.peek address) cycle asFlag
  let toRegister : Signal := ⟨.data, access.tier.name, destination.name, access.value⟩
  {
    storage := {
      registers := s.registers.write destination.name access.value
      memory := s.memory.markRead address
      cache }
    registerChanges := [⟨destination.name, destination.value, access.value⟩]
    -- on a miss the value comes from memory first
    signals :=
      if access.hit then [toRegister]
      else [⟨.data, "Memory", access.tier.name, access.value⟩, toRegister]
    evicted := access.evicted
  }

/-- Sets a cell of memory and the line for it in the cache. -/
def storeEffect (s : Storage) (cycle : Int) (source : Register) (address old : Int) : Effect :=
  let (cache, access) := s.cache.update address source.value cycle
  let level := access.tier.name
  {
    storage := { s with memory := s.memory.store address source.value, cache }
    memoryChanges := [⟨address, old, source.value⟩]
    -- on a miss the value goes on to memory
    signals :=
      [⟨.address, "CPU", "Memory", address⟩, ⟨.data, source.name, level, source.value⟩]
      ++ if access.hit then [] else [⟨.data, level, "Memory", source.value⟩]
    evicted := access.evicted
  }

def effect (s : Storage) (cycle : Int) : Action → Effect
  | set destination source => setEffect s destination source
  | compute destination a b result => computeEffect s destination a b result
  | loadCell destination address asFlag => loadEffect s cycle destination address asFlag
  | storeCell source address old => storeEffect s cycle source address old
  | nothing => { storage := s }

end Action

namespace Instruction

/-- The effect of an instruction in a cycle, or why it cannot be carried out. -/
def execute (i : Instruction) (s : Storage) (cycle : Int) : Except Fault Effect :=
  (i.action s).map (Action.effect s cycle)

/-- Whether carrying out the opcode never has an effect. -/
def isIneffective (i : Instruction) : Bool :=
  match i.opcode with
  | .jmp | .jz | .jnz | .halt => true
  | _ => false

def effectLog (i : Instruction) (e : Effect) : List Event :=
  if i.isIneffective then [.ineffective i.opcode]
  else e.evicted.toList.map Event.evicted ++ e.signals.map Event.transferred

end Instruction

/-! ## Attempts -/

/-- An attempt at an instruction that nothing stopped: it was carried out, or passed over. -/
inductive Attempt where
  | done (e : Effect)
  | skipped (m : Malformed)

namespace Instruction

/-- Attempts an instruction. A malformed one is passed over, or stops a strict attempt; a field of
the wrong kind stops any, and so does a malformed instruction whose id cannot be written. -/
def attempt (i : Instruction) (strict : Bool) (s : Storage) (cycle : Int) : Except Failure Attempt :=
  match i.execute s cycle with
  | .ok e => .ok (.done e)
  | .error (.flaw f) =>
    if !i.id.isWritable then .error (.misuse .unwritable)
    else if strict then .error (.malformed (i.malformed f))
    else .ok (.skipped (i.malformed f))
  | .error (.misuse u) => .error (.misuse u)

def attemptLog (i : Instruction) : Attempt → List Event
  | .done e => i.effectLog e
  | .skipped m => [.skipped m]

end Instruction

end PhaseMachine
