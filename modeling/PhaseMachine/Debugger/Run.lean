/-
Controlled execution: phase by phase, to the end of an instruction, or until a breakpoint, a limit
or the end of the program. A failing phase ends what is under way.
-/
import PhaseMachine.Debugger.Basic
import PhaseMachine.Machine.Run

namespace PhaseMachine.Debugger

/-- What was asked for or a failure, the debugger afterwards, and what was reported. -/
structure Report (τ α : Type) where
  result : Except Failure α
  debugger : Debugger τ
  log : List Event := []

variable {τ : Type} [Quantity τ]

/-- Carries out the next phase and answers its record, none after the end of the program. -/
def stepPhase (d : Debugger τ) : Report τ (Option Record) :=
  let s := d.machine.step
  let moved := { d with machine := s.machine, before := d.registers }
  match s.outcome with
  | .finished => ⟨.ok none, moved, s.log⟩
  | .stepped =>
    let last := s.machine.history.getLast?
    ⟨.ok last, { moved with last }, s.log⟩
  | .failed f => ⟨.error f, moved, s.log⟩

/-- A phase that is carried out is one less of what is left, so what goes on from phase to phase ends. -/
theorem phasesLeft_stepPhase {d : Debugger τ} {r : Record} (h : d.stepPhase.result = .ok (some r)) :
    d.stepPhase.debugger.machine.phasesLeft < d.machine.phasesLeft := by
  have hmachine : d.stepPhase.debugger.machine = d.machine.step.machine := by
    unfold stepPhase
    dsimp only
    split <;> rfl
  rw [hmachine]
  refine Machine.phasesLeft_step ?_
  unfold stepPhase at h
  dsimp only at h
  split at h
  · cases h
  · next hstep => exact hstep
  · cases h

/-! ## Instructions -/

/-- Carries out phases up to a store or the end of the program, after those already carried out. -/
def stepToStore (done : List Record) (log : List Event) (d : Debugger τ) : Report τ (List Record) :=
  let r := d.stepPhase
  match _hstep : r.result with
  | .error f => ⟨.error f, r.debugger, log ++ r.log⟩
  | .ok none => ⟨.ok done, r.debugger, log ++ r.log⟩
  | .ok (some record) =>
    if record.stage = .store then ⟨.ok (done ++ [record]), r.debugger, log ++ r.log⟩
    else r.debugger.stepToStore (done ++ [record]) (log ++ r.log)
termination_by d.machine.phasesLeft
decreasing_by exact phasesLeft_stepPhase _hstep

/-- Carries out the rest of the current instruction. -/
def stepInstruction (d : Debugger τ) : Report τ (List Record) :=
  d.stepToStore [] []

/-! ## Runs -/

/-- Runs on after `count` phases. A breakpoint on the place of the first instruction does not stop a
run at its start. -/
def runFrom (limit : Option Int) (count : Nat) (log : List Event) (d : Debugger τ) : Report τ Nat :=
  if Machine.reached limit count then ⟨.ok count, d.stop, log⟩
  else if count ≠ 0 ∧ d.stopsBefore then
    ⟨.ok count, d.stop, log ++ [.stoppedBefore d.machine.index]⟩
  else
    let r := d.stepPhase
    match _hstep : r.result with
    | .error f => ⟨.error f, r.debugger, log ++ r.log⟩
    | .ok none => ⟨.ok count, r.debugger.stop, log ++ r.log ++ [.finished count]⟩
    | .ok (some record) =>
      if r.debugger.stopsAfter record then
        ⟨.ok (count + 1), r.debugger.stop, log ++ r.log ++ [.stoppedAt record.cycle record.stage]⟩
      else r.debugger.runFrom limit (count + 1) (log ++ r.log)
termination_by d.machine.phasesLeft
decreasing_by exact phasesLeft_stepPhase _hstep

/-- Runs and answers the number of phases. A failing phase leaves the debugger running. -/
def run (d : Debugger τ) (limit : Option Int) : Report τ Nat :=
  { d with running := true }.runFrom limit 0 []

end PhaseMachine.Debugger
