/-
The debugger: a machine under control, with breakpoints, the record of the latest phase, and the
values that registers had before it.
-/
import PhaseMachine.Debugger.Breakpoint
import PhaseMachine.Machine.Step

namespace PhaseMachine

structure Debugger (τ : Type) where
  machine : Machine τ
  breakpoints : List Breakpoint := []
  running : Bool := false
  /-- The values of registers before the latest phase. -/
  before : Breakpoint.Registers
  last : Option Record := none

namespace Debugger

variable {τ : Type}

def registers (d : Debugger τ) : Breakpoint.Registers :=
  d.machine.storage.registers.toMap

def attach (m : Machine τ) : Debugger τ :=
  { machine := m, before := m.storage.registers.toMap }

/-! ## Breakpoints -/

/-- Adds a breakpoint, unless there is an equal one. -/
def add (d : Debugger τ) (b : Breakpoint) : Debugger τ :=
  if b ∈ d.breakpoints then d else { d with breakpoints := d.breakpoints ++ [b] }

def update (d : Debugger τ) (old new : Breakpoint) : Debugger τ :=
  { d with breakpoints := d.breakpoints.replace old new }

def remove (d : Debugger τ) (b : Breakpoint) : Debugger τ :=
  { d with breakpoints := d.breakpoints.erase b }

/-- Whether a breakpoint stops a run before the next phase. -/
def stopsBefore [Quantity τ] (d : Debugger τ) : Bool :=
  d.machine.nextPhase == .at .fetch && d.breakpoints.any fun b => b.meetsIndex d.machine.index

/-- Whether a breakpoint stops a run after the phase of a record. -/
def stopsAfter (d : Debugger τ) (r : Record) : Bool :=
  d.breakpoints.any fun b => b.meets d.before d.registers r

def stop (d : Debugger τ) : Debugger τ :=
  { d with running := false }

end Debugger

end PhaseMachine
