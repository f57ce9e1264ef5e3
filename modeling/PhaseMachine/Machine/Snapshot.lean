/-
Snapshots: the state of a machine as it is shown. A snapshot does not change when the machine goes
on.
-/
import PhaseMachine.Machine.Basic

namespace PhaseMachine

structure Snapshot (τ : Type) where
  storage : Storage
  pc : Nat
  ir : Option Instruction
  phase : Phase
  cycle : Nat
  transfers : List (Transfer τ)
  history : List Record
  stepDuration : τ

def Machine.snapshot {τ : Type} (m : Machine τ) : Snapshot τ :=
  {
    storage := m.storage, pc := m.pc, ir := m.ir, phase := m.phase, cycle := m.cycle
    transfers := m.bus.transfers, history := m.history, stepDuration := m.stepDuration
  }

namespace Snapshot

variable {τ : Type}

def registerValue? (s : Snapshot τ) (name : String) : Option Int :=
  s.storage.registers.value? name

def memoryValue (s : Snapshot τ) (address : Int) (asFlag : Bool := false) :
    Except Memory.OutOfBounds Int :=
  match s.storage.memory.find? address with
  | some c => .ok c.value
  | none => .error { address, size := s.storage.memory.size, addressAsFlag := asFlag }

end Snapshot

end PhaseMachine
