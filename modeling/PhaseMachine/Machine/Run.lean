/-
Runs of a machine: one step after another until the program is over, a limit is reached or an
instruction stops the machine. Every stage that is carried out leaves one less of the program, so a
program runs to its end.
-/
import PhaseMachine.Machine.Step

namespace PhaseMachine

def Stage.left : Stage → Nat
  | fetch => 4
  | decode => 3
  | execute => 2
  | store => 1

namespace Machine

variable {τ : Type} [Quantity τ]

def phasesLeft (m : Machine τ) : Nat :=
  4 * (m.program.length - m.index) + m.stage.left - 4

/-- The machine at the same place of the same program. -/
structure SamePlace (m n : Machine τ) : Prop where
  program : n.program = m.program
  index : n.index = m.index
  stage : n.stage = m.stage

omit [Quantity τ] in
theorem SamePlace.refl (m : Machine τ) : m.SamePlace m :=
  ⟨rfl, rfl, rfl⟩

theorem samePlace_sendAll (signals : List Signal) (m : Machine τ) : m.SamePlace (m.sendAll signals) := by
  induction signals generalizing m with
  | nil => exact .refl m
  | cons s rest ih =>
    have h := ih (m.send s)
    exact ⟨h.program, h.index, h.stage⟩

theorem samePlace_attempted (m : Machine τ) (i : Instruction) (a : Attempt) :
    m.SamePlace (m.attempted i a).machine := by
  cases a with
  | done e =>
    have h := samePlace_sendAll e.signals { m with storage := e.storage }
    exact ⟨h.program, h.index, h.stage⟩
  | skipped => exact .refl m

theorem samePlace_turn {m : Machine τ} {i : Instruction} {t : Turn τ} (h : m.turn i = .ok t) :
    m.SamePlace t.machine := by
  unfold turn at h
  split at h
  · cases h
    have hsame := samePlace_sendAll (fetchSignals (m.pc + 1)) { m with
      ir := some i, pc := m.pc + 1
      storage := { m.storage with registers := m.storage.registers.write "PC" ↑(m.pc + 1) } }
    exact ⟨hsame.program, hsame.index, hsame.stage⟩
  · cases h
    exact ⟨rfl, rfl, rfl⟩
  · unfold execute at h
    cases ha : i.attempt m.strict m.storage m.cycle with
    | error f => rw [ha] at h; cases h
    | ok a =>
      rw [ha] at h
      cases h
      exact samePlace_attempted m i a
  · cases h
    exact ⟨rfl, rfl, rfl⟩

omit [Quantity τ] in
theorem phasesLeft_proceed (m : Machine τ) (hlt : m.index < m.program.length) :
    m.proceed.phasesLeft < m.phasesLeft := by
  unfold proceed phasesLeft
  cases m.stage <;> simp only [Stage.next?, Stage.left] <;> omega

theorem phasesLeft_step {m : Machine τ} (h : m.step.outcome = .stepped) :
    m.step.machine.phasesLeft < m.phasesLeft := by
  unfold step at h ⊢
  split at h
  · next i hi =>
    have hlt : m.index < m.program.length := (List.getElem?_eq_some_iff.mp hi).1
    simp only [stepWith] at h ⊢
    split at h
    · next t hturn =>
      have hsame := samePlace_turn hturn
      simp only [Turn.conclude] at h ⊢
      split at h
      · next =>
        have henter : m.enter.phasesLeft = m.phasesLeft := rfl
        have hleft : t.machine.phasesLeft = m.phasesLeft := by
          rw [← henter, phasesLeft, phasesLeft, hsame.program, hsame.index, hsame.stage]
        rw [← hleft]
        refine phasesLeft_proceed { t.machine with history := t.machine.history ++ [t.record i] } ?_
        show t.machine.index < t.machine.program.length
        rw [hsame.program, hsame.index]
        exact hlt
      · cases h
    · cases h
  · cases h

/-! ## Runs -/

/-- A run: the failure that ended it, if one did, the machine after it, and what it reports. -/
structure Run (τ : Type) where
  failure? : Option Failure := none
  machine : Machine τ
  log : List Event := []

/-- Whether a number of phases is all that a limit allows. -/
def reached (limit : Option Int) (count : Nat) : Bool :=
  limit.any fun n => n ≤ (count : Int)

/-- The rest of a run after `count` phases and what they reported. -/
def runFrom (limit : Option Int) (count : Nat) (log : List Event) (m : Machine τ) : Run τ :=
  if reached limit count then { machine := m, log }
  else
    match _hstep : m.step.outcome with
    | .stepped => m.step.machine.runFrom limit (count + 1) (log ++ m.step.log)
    | .finished => { machine := m.step.machine, log := log ++ m.step.log }
    | .failed f => { failure? := some f, machine := m.step.machine, log := log ++ m.step.log }
termination_by m.phasesLeft
decreasing_by exact phasesLeft_step _hstep

def run (m : Machine τ) (limit : Option Int) : Run τ :=
  m.runFrom limit 0 []

end Machine

end PhaseMachine
