/-
Stages that fail for good. Whether an attempt at an instruction fails hangs on what it finds in the
registers and in memory, not on the cycle or the cache. A stage that fails changes neither, so each
later step fails alike, whatever timers do in between, until the history starts over.
-/
import PhaseMachine.Proofs.Machine.Life

namespace PhaseMachine

namespace Instruction

variable {i : Instruction} {s : Storage}

/-- What comes of an instruction with a fault: it fails, or it is passed over. -/
def response (i : Instruction) (strict : Bool) : Fault → Except Failure Attempt
  | .flaw f =>
    if !i.id.isWritable then .error (.misuse .unwritable)
    else if strict then .error (.malformed (i.malformed f))
    else .ok (.skipped (i.malformed f))
  | .misuse u => .error (.misuse u)

theorem attempt_of_ok {a : Action} (h : i.action s = .ok a) (strict : Bool) (cycle : Int) :
    i.attempt strict s cycle = .ok (.done (a.effect s cycle)) := by
  unfold attempt execute
  rw [h]
  rfl

theorem attempt_of_error {w : Fault} (h : i.action s = .error w) (strict : Bool) (cycle : Int) :
    i.attempt strict s cycle = i.response strict w := by
  unfold attempt execute response
  rw [h]
  cases w <;> rfl

/-- A flaw is passed over if the attempt is not strict and the id can be written, and fails otherwise. -/
theorem response_flaw (i : Instruction) (strict : Bool) (w : Flaw) :
    (strict = false ∧ i.id.isWritable = true ∧ i.response strict (.flaw w) = .ok (.skipped (i.malformed w))) ∨
      ∃ f, i.response strict (.flaw w) = .error f := by
  unfold response
  cases i.id.isWritable <;> cases strict <;> simp

end Instruction

namespace Machine

variable {τ : Type} {m : Machine τ} {i : Instruction} {f : Failure}

/-- The machine is before the execute stage of an instruction that fails. -/
def FailsWith (m : Machine τ) (f : Failure) : Prop :=
  m.stage = .execute ∧ ∃ i w, m.program[m.index]? = some i ∧ i.action m.storage = .error w ∧
    i.response m.strict w = .error f

/-- The work of the execute stage is an attempt at the instruction. -/
theorem work_execute (hs : m.stage = .execute) (i : Instruction) :
    m.enter.work i = (i.attempt m.strict m.storage m.enter.cycle).map fun
      | .done e => e
      | .skipped _ => { storage := m.storage } := by
  have hstage : m.enter.stage = .execute := hs
  unfold work
  rw [hstage]
  rfl

/-- Only the execute stage fails, and it fails with a fault of the instruction. -/
theorem failsWith_of_work (hi : m.program[m.index]? = some i) (hw : m.enter.work i = .error f) :
    m.FailsWith f := by
  have hs : m.stage = .execute := by
    have hstage : m.enter.stage = m.stage := rfl
    unfold work at hw
    rw [hstage] at hw
    cases h : m.stage with
    | execute => rfl
    | fetch => rw [h] at hw; cases hw
    | decode => rw [h] at hw; cases hw
    | store => rw [h] at hw; cases hw
  rw [work_execute hs] at hw
  cases ha : i.action m.storage with
  | ok a =>
    rw [Instruction.attempt_of_ok ha] at hw
    cases hw
  | error w =>
    rw [Instruction.attempt_of_error ha] at hw
    refine ⟨hs, i, w, hi, ha, ?_⟩
    cases hr : i.response m.strict w with
    | ok a => rw [hr] at hw; cases hw
    | error g => rw [hr] at hw; cases hw; rfl

theorem FailsWith.work (h : m.FailsWith f) : ∃ i, m.program[m.index]? = some i ∧ m.enter.work i = .error f := by
  obtain ⟨hs, i, w, hi, ha, hr⟩ := h
  refine ⟨i, hi, ?_⟩
  rw [work_execute hs, Instruction.attempt_of_error ha, hr]
  rfl

/-- The next cycle finds the same fault. -/
theorem FailsWith.enter (h : m.FailsWith f) : m.enter.FailsWith f :=
  h

variable [Quantity τ]

/-- A step of a machine that fails changes nothing but phase and cycle. -/
theorem FailsWith.step (h : m.FailsWith f) : m.step.outcome = .failed f ∧ m.step.machine = m.enter := by
  obtain ⟨i, hi, hw⟩ := h.work
  exact step_of_error hi hw

/-- A machine that fails goes on failing. -/
theorem FailsWith.perform (h : m.FailsWith f) {op : Op τ} (ho : op.restarts = false) :
    (m.perform op).FailsWith f := by
  rcases Op.step_or_between ho with rfl | hb
  · show m.step.machine.FailsWith f
    rw [h.step.2]
    exact h.enter
  · obtain ⟨stepDuration, bus, timers, clock, cache, he, -⟩ := m.between_eq hb
    rw [he]
    -- what an instruction asks for is not looked up in the cache
    exact h

end Machine

end PhaseMachine
