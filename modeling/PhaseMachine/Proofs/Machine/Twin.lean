/-
Twins: a machine that differs from another in its strictness and in the numbers of its timers and
epochs, which are moved on by fixed amounts. Whatever is done to both leaves twins again, and ends
alike, as long as no step comes to the one place where strictness counts: the work of a malformed
instruction.
-/
import PhaseMachine.Proofs.Machine.Life
import PhaseMachine.Proofs.Scheduler.Renumber

namespace PhaseMachine.Machine

variable {τ : Type}

/-- The machine with another strictness, and with the numbers and epochs of its timers moved on. -/
def twin (m : Machine τ) (strict : Bool) (numbers epochs : Nat) : Machine τ :=
  { m with strict, timers := m.timers.renumber numbers epochs }

theorem twin_zero (m : Machine τ) (strict : Bool) : m.twin strict 0 0 = { m with strict } := by
  unfold twin
  rw [Scheduler.renumber_zero]

variable [Quantity τ] {strict : Bool} {numbers epochs : Nat}

/-! ## Sending and recording -/

theorem defer_twin (m : Machine τ) (delay : τ) (timer : Timer) :
    (m.twin strict numbers epochs).defer delay timer = (m.defer delay timer).twin strict numbers epochs := by
  have hs : (m.timers.renumber numbers epochs).schedule m.clock delay timer =
      (m.timers.schedule m.clock delay timer).renumber numbers epochs := m.timers.schedule_renumber ..
  unfold defer twin
  dsimp only
  rw [hs]

theorem send_twin (m : Machine τ) (signal : Signal) :
    (m.twin strict numbers epochs).send signal = (m.send signal).twin strict numbers epochs :=
  defer_twin { m with bus := m.bus.record m.clock signal } m.bus.lifetime (.expire m.bus.nextNumber)

theorem sendAll_twin (m : Machine τ) (signals : List Signal) :
    (m.twin strict numbers epochs).sendAll signals = (m.sendAll signals).twin strict numbers epochs := by
  induction signals generalizing m with
  | nil => rfl
  | cons s rest ih =>
    show ((m.twin strict numbers epochs).send s).sendAll rest = _
    rw [send_twin]
    exact ih (m.send s)

theorem carry_twin (m : Machine τ) (i : Instruction) (e : Effect) :
    (m.twin strict numbers epochs).carry i e = (m.carry i e).twin strict numbers epochs := by
  let placed := { m with storage := e.storage, pc := m.pcAfter, ir := m.irAfter i }
  have hsent : (placed.twin strict numbers epochs).sendAll e.signals =
      (placed.sendAll e.signals).twin strict numbers epochs := placed.sendAll_twin e.signals
  have hstage : (m.twin strict numbers epochs).stage = m.stage := rfl
  unfold carry
  rw [hstage]
  by_cases hs : m.stage = .store
  · rw [if_pos hs, if_pos hs, ← defer_twin, ← hsent]
    rfl
  · rw [if_neg hs, if_neg hs, ← hsent]
    rfl

theorem recorded_twin (m : Machine τ) (i : Instruction) (e : Effect) :
    (m.twin strict numbers epochs).recorded i e = (m.recorded i e).twin strict numbers epochs := by
  unfold recorded
  rw [carry_twin]
  rfl

omit [Quantity τ] in
theorem proceed_twin (m : Machine τ) :
    (m.twin strict numbers epochs).proceed = m.proceed.twin strict numbers epochs := by
  have hstage : (m.twin strict numbers epochs).stage = m.stage := rfl
  unfold proceed
  rw [hstage]
  cases m.stage.next? <;> rfl

/-! ## Steps -/

/-- Twins whose work is the same take steps that end alike, and are twins after them. -/
theorem step_twin {m : Machine τ}
    (h : ∀ i, m.program[m.index]? = some i → (m.twin strict numbers epochs).enter.work i = m.enter.work i) :
    (m.twin strict numbers epochs).step.outcome = m.step.outcome ∧
      (m.twin strict numbers epochs).step.machine = m.step.machine.twin strict numbers epochs := by
  -- what the twin records is the twin of what is recorded
  have hrecorded : ∀ i e, (m.twin strict numbers epochs).enter.recorded i e =
      (m.enter.recorded i e).twin strict numbers epochs := m.enter.recorded_twin
  rcases m.step_cases with ⟨hi, ho, hs⟩ | ⟨i, f, hi, hw, ho, hs⟩ | ⟨i, e, text, hi, hw, ha, ho, hs⟩ |
    ⟨i, e, u, hi, hw, ha, ho, hs⟩
  · obtain ⟨ho', hs'⟩ := step_of_none (m := m.twin strict numbers epochs) hi
    rw [ho, hs, ho', hs']
    exact ⟨rfl, rfl⟩
  · obtain ⟨ho', hs'⟩ := step_of_error (m := m.twin strict numbers epochs) hi ((h i hi).trans hw)
    rw [ho, hs, ho', hs']
    exact ⟨rfl, rfl⟩
  · rcases step_of_ok (m := m.twin strict numbers epochs) hi ((h i hi).trans hw) with
      ⟨text', -, ho', hs'⟩ | ⟨u, ha', -⟩
    · rw [ho, hs, ho', hs', hrecorded, proceed_twin]
      exact ⟨rfl, rfl⟩
    · rw [ha] at ha'; cases ha'
  · rcases step_of_ok (m := m.twin strict numbers epochs) hi ((h i hi).trans hw) with
      ⟨text', ha', -⟩ | ⟨u', ha', ho', hs'⟩
    · rw [ha] at ha'; cases ha'
    · rw [ha] at ha'
      cases ha'
      rw [ho, hs, ho', hs', hrecorded]
      exact ⟨rfl, rfl⟩

/-! ## Timers -/

theorem due_twin (m : Machine τ) :
    (m.twin strict numbers epochs).due = m.due.map (Task.renumber numbers epochs) := by
  show ((m.timers.renumber numbers epochs).drain m.clock).1 = _
  rw [Scheduler.drain_renumber]
  rfl

omit [Quantity τ] in
theorem fires_twin (m : Machine τ) (ts : List (Task τ Timer)) :
    (ts.map (Task.renumber numbers epochs)).foldl (fun m t => m.fire t.payload)
        (m.twin strict numbers epochs) =
      (ts.foldl (fun m t => m.fire t.payload) m).twin strict numbers epochs := by
  induction ts generalizing m with
  | nil => rfl
  | cons t rest ih =>
    have hfire : (m.twin strict numbers epochs).fire (t.renumber numbers epochs).payload =
        (m.fire t.payload).twin strict numbers epochs := by
      show (m.twin strict numbers epochs).fire t.payload = _
      cases t.payload <;> rfl
    rw [List.map_cons, List.foldl_cons, List.foldl_cons, hfire]
    exact ih (m.fire t.payload)

theorem poll_twin (m : Machine τ) :
    (m.twin strict numbers epochs).poll = m.poll.twin strict numbers epochs := by
  have hleft : ({ m.twin strict numbers epochs with
        timers := ((m.timers.renumber numbers epochs).drain m.clock).2 } : Machine τ) =
      ({ m with timers := (m.timers.drain m.clock).2 } : Machine τ).twin strict numbers epochs := by
    rw [Scheduler.drain_renumber]
    rfl
  unfold poll
  rw [due_twin]
  show (m.due.map (Task.renumber numbers epochs)).foldl (fun m t => m.fire t.payload)
    { m.twin strict numbers epochs with
      timers := ((m.timers.renumber numbers epochs).drain m.clock).2 } = _
  rw [hleft]
  exact fires_twin _ _

/-! ## All operations -/

theorem setDuration_twin (m : Machine τ) (ms : τ) :
    (m.twin strict numbers epochs).setDuration ms =
      (m.setDuration ms).map fun n => n.twin strict numbers epochs := by
  unfold setDuration
  split <;> rfl

/-- Whatever is done to twins leaves twins, steps apart at which their work differs. -/
theorem perform_twin {m : Machine τ} {op : Op τ}
    (h : op = .step → ∀ i, m.program[m.index]? = some i →
      (m.twin strict numbers epochs).enter.work i = m.enter.work i) :
    (m.twin strict numbers epochs).perform op = (m.perform op).twin strict numbers epochs := by
  cases op with
  | load program =>
    have he : (m.timers.renumber numbers epochs).advanceEpoch =
        m.timers.advanceEpoch.renumber numbers epochs := m.timers.advanceEpoch_renumber
    unfold perform load twin
    dsimp only
    rw [he]
  | reset =>
    have he : (m.timers.renumber numbers epochs).advanceEpoch =
        m.timers.advanceEpoch.renumber numbers epochs := m.timers.advanceEpoch_renumber
    unfold perform reset twin
    dsimp only
    rw [he]
  | step => exact (step_twin (h rfl)).2
  | setDuration ms =>
    show ((m.twin strict numbers epochs).setDuration ms).toOption.getD _ =
      ((m.setDuration ms).toOption.getD m).twin strict numbers epochs
    rw [setDuration_twin]
    cases m.setDuration ms <;> rfl
  | advance ms => rfl
  | poll => exact m.poll_twin

end PhaseMachine.Machine
