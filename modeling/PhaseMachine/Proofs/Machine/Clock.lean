/-
The clock and the history. The clock goes on with every step that finds an instruction, the history with
every one that carries a stage out. A step that fails at its stage leaves the machine as it was but for
phase and cycle. So the clock is ahead of the history by the steps that failed so since the history
started over.
-/
import PhaseMachine.Machine.Snapshot
import PhaseMachine.Proofs.Execution.Complete
import PhaseMachine.Proofs.Machine.Soundness
import PhaseMachine.Proofs.Machine.Stall

namespace PhaseMachine.Machine

variable {τ : Type} [Quantity τ]

/-! ## Steps that fail at their stage -/

/-- Whether the next step fails and adds no record. -/
def stalls (m : Machine τ) : Bool :=
  match m.step.outcome with
  | .failed _ => m.step.machine.history.length == m.history.length
  | _ => false

variable {m : Machine τ}

theorem stalls_of_work {i : Instruction} {f : Failure} (hi : m.program[m.index]? = some i)
    (hw : m.enter.work i = .error f) : m.stalls = true := by
  obtain ⟨ho, hs⟩ := step_of_error hi hw
  unfold stalls
  rw [ho, hs]
  exact beq_self_eq_true _

/-- A stage that is carried out is recorded, and the clock is one cycle on. -/
theorem advance_recorded {i : Instruction} {e : Effect} :
    (m.enter.recorded i e).cycle = m.cycle + 1 ∧ (m.enter.recorded i e).history.length = m.history.length + 1 := by
  obtain ⟨bus, timers, hr⟩ := m.enter.recorded_eq i e
  rw [hr]
  exact ⟨rfl, List.length_append⟩

/-- A step moves the clock and the history on alike, unless it fails at its stage and only the clock goes
on. -/
theorem step_clock (m : Machine τ) :
    (m.stalls = true ∧ (∃ f, m.FailsWith f) ∧ m.step.machine = m.enter) ∨
    (m.stalls = false ∧ (∀ x, m.step.outcome ≠ .failed (.malformed x)) ∧
      ∃ d, m.step.machine.cycle = m.cycle + d ∧ m.step.machine.history.length = m.history.length + d) := by
  rcases m.step_cases with ⟨-, ho, hs⟩ | ⟨i, f, hi, hw, ho, hs⟩ | ⟨i, e, text, -, -, -, ho, hs⟩ |
    ⟨i, e, u, -, -, -, ho, hs⟩
  · refine .inr ⟨by unfold stalls; rw [ho], fun x hx => ?_, 0, by rw [hs]; rfl, by rw [hs]; rfl⟩
    rw [ho] at hx
    cases hx
  · exact .inl ⟨stalls_of_work hi hw, ⟨f, failsWith_of_work hi hw⟩, hs⟩
  · obtain ⟨index, stage, hp⟩ := (m.enter.recorded i e).proceed_eq
    obtain ⟨hcycle, hlength⟩ := advance_recorded (m := m) (i := i) (e := e)
    refine .inr ⟨by unfold stalls; rw [ho], fun x hx => ?_, 1, ?_⟩
    · rw [ho] at hx
      cases hx
    · rw [hs, hp]
      exact ⟨hcycle, hlength⟩
  · -- the record of what cannot be shown in assembly is made before the step fails
    obtain ⟨hcycle, hlength⟩ := advance_recorded (m := m) (i := i) (e := e)
    refine .inr ⟨?_, fun x hx => ?_, 1, ?_⟩
    · unfold stalls
      rw [ho, hs, hlength]
      exact beq_eq_false_iff_ne.2 (Nat.succ_ne_self _)
    · rw [ho] at hx
      cases hx
    · rw [hs]
      exact ⟨hcycle, hlength⟩

/-- A step that stops for a malformed instruction leaves the machine but for phase and cycle. -/
theorem step_malformed {x : Malformed} (ho : m.step.outcome = .failed (.malformed x)) :
    m.stalls = true ∧ m.step.machine = { m with phase := .at .execute, cycle := m.cycle + 1 } := by
  rcases m.step_clock with ⟨hstalls, ⟨f, hf⟩, hs⟩ | ⟨-, hno, -⟩
  · refine ⟨hstalls, ?_⟩
    rw [hs, enter, hf.1]
  · exact absurd ho (hno x)

/-- With a well-typed instruction only what is malformed stops a step at its stage. -/
theorem stalls_iff_malformed {i : Instruction} (hi : m.program[m.index]? = some i) (hw : i.WellTyped)
    (hid : i.id.isWritable = true) : m.stalls = true ↔ ∃ x, m.step.outcome = .failed (.malformed x) := by
  refine ⟨fun hstalls => ?_, fun ⟨x, hx⟩ => (step_malformed hx).1⟩
  rcases m.step_clock with ⟨-, ⟨f, hf⟩, -⟩ | ⟨hno, -⟩
  · have hstep := hf.step.1
    obtain ⟨-, i', w, hi', ha, hr⟩ := hf
    rw [hi] at hi'
    cases hi'
    rcases Instruction.action_decides (s := m.storage) hw with ⟨-, a, ha'⟩ | ⟨-, v, hv⟩
    · rw [ha] at ha'
      cases ha'
    · rw [ha] at hv
      cases hv
      rw [Instruction.response, hid] at hr
      cases hstrict : m.strict with
      | false =>
        rw [hstrict] at hr
        cases hr
      | true =>
        rw [hstrict] at hr
        cases hr
        exact ⟨_, hstep⟩
  · rw [hstalls] at hno
    cases hno

/-! ## Any operations -/

/-- How many steps failed at their stage since the history started over, after an operation. -/
def lagAfter (m : Machine τ) (n : Nat) : Op τ → Nat
  | .load _ | .reset => 0
  | .step => if m.stalls then n + 1 else n
  | _ => n

def lagFrom (n : Nat) (m : Machine τ) : List (Op τ) → Nat
  | [] => n
  | op :: ops => lagFrom (m.lagAfter n op) (m.perform op) ops

/-- The same for a machine as it is made, after any operations. -/
def lag (m : Machine τ) (ops : List (Op τ)) : Nat :=
  m.lagFrom 0 ops

theorem cycle_perform {n : Nat} (h : m.cycle = m.history.length + n) (op : Op τ) :
    (m.perform op).cycle = (m.perform op).history.length + m.lagAfter n op := by
  by_cases hr : op.restarts = true
  · cases op with
    | load program => rfl
    | reset => rfl
    | _ => cases hr
  · rcases Op.step_or_between (Bool.eq_false_iff.2 hr) with rfl | hb
    · show m.step.machine.cycle = m.step.machine.history.length + if m.stalls then n + 1 else n
      rcases m.step_clock with ⟨hstalls, -, hs⟩ | ⟨hstalls, -, d, hcycle, hlength⟩
      · rw [hs, hstalls]
        show m.cycle + 1 = m.history.length + (n + 1)
        omega
      · rw [hcycle, hlength, hstalls, h]
        show m.history.length + n + d = m.history.length + d + n
        omega
    · obtain ⟨stepDuration, bus, timers, clock, cache, he, -⟩ := m.between_eq hb
      have hlag : m.lagAfter n op = n := by
        cases op with
        | load program => cases hb
        | reset => cases hb
        | step => cases hb
        | _ => rfl
      rw [he, hlag]
      exact h

theorem cycle_after {n : Nat} (h : m.cycle = m.history.length + n) (ops : List (Op τ)) :
    (m.after ops).cycle = (m.after ops).history.length + m.lagFrom n ops := by
  induction ops generalizing m n with
  | nil => exact h
  | cons op ops ih => exact ih (cycle_perform h op)

/-- After any operations on a machine as it was made, a step that stops for a malformed instruction leaves
all that is shown as it was, but for the phase, which is execute, and the cycle, which is the next. The clock
is ahead of the history by the steps that failed at their stage since the history started over, and with
well-typed instructions those are the ones that stopped for a malformed one. -/
theorem clock_exact {s : Setup τ} {clock : τ} {made : Machine τ} (hm : ofSetup s clock = .ok made)
    (ops : List (Op τ)) :
    (∀ x, (made.after ops).step.outcome = .failed (.malformed x) →
      (made.after ops).step.machine =
          { made.after ops with phase := .at .execute, cycle := (made.after ops).cycle + 1 } ∧
        (made.after ops).step.machine.snapshot =
          { (made.after ops).snapshot with phase := .at .execute, cycle := (made.after ops).snapshot.cycle + 1 }) ∧
    (made.after ops).cycle = (made.after ops).history.length + made.lag ops ∧
    ∀ i, (made.after ops).program[(made.after ops).index]? = some i → i.WellTyped → i.id.isWritable = true →
      ((made.after ops).stalls = true ↔ ∃ x, (made.after ops).step.outcome = .failed (.malformed x)) := by
  refine ⟨fun x hx => ?_, cycle_after ?_ ops, fun i => stalls_iff_malformed⟩
  · have hs := (step_malformed hx).2
    exact ⟨hs, by rw [hs]; rfl⟩
  · rw [(ofSetup_ok hm).2.2]
    rfl

/-- A sum without operands is loaded and taken up to its execute stage. -/
def beforeSum : List (Op Rat) :=
  [.load [{ opcode := .add, destination := .given "R1" }], .step, .step]

/-- The step that stops for it was made once, and stops again. -/
theorem clock_exact_repeated :
    let m := (small false true).after (beforeSum ++ [.step])
    ofSetup (.small false true) 0 = .ok (small false true) ∧ (small false true).lag (beforeSum ++ [.step]) = 1 ∧
      m.cycle = m.history.length + 1 ∧ m.stalls = true ∧
      m.step.machine.snapshot = { m.snapshot with phase := .at .execute, cycle := m.snapshot.cycle + 1 } := by
  intro m
  have hm := ofSetup_small false true
  obtain ⟨hkeeps, hclock, hstalls⟩ := clock_exact hm (beforeSum ++ [.step])
  have hlag : (small false true).lag (beforeSum ++ [.step]) = 1 := by decide +kernel
  have hsteps : ∀ op ∈ ([.step, .step, .step] : List (Op Rat)), op.restarts = false := by decide
  have hprogram : m.program = [{ opcode := .add, destination := .given "R1" }] :=
    after_of_perform (P := fun n => n.program = [{ opcode := .add, destination := .given "R1" }])
      (m := (small false true).load [{ opcode := .add, destination := .given "R1" }])
      (fun n _ hn ho => (n.program_perform ho).trans hn) rfl hsteps
  have hindex : m.index = 0 := by decide +kernel
  have hi : m.program[m.index]? = some { opcode := .add, destination := .given "R1" } := by
    rw [hprogram, hindex]
    rfl
  have hs : m.stalls = true := by decide +kernel
  obtain ⟨x, hx⟩ := (hstalls _ hi (by decide) rfl).1 hs
  exact ⟨hm, hlag, hlag ▸ hclock, hs, (hkeeps x hx).2⟩

/-- A step that stops does not leave the machine as it was, and the clock is not the number of records
then. -/
theorem malformed_step_passes :
    let m := (small false true).after beforeSum
    Reachable m ∧ m.strict = true ∧ (∃ x, m.step.outcome = .failed (.malformed x)) ∧
      m.step.machine.snapshot ≠ m.snapshot ∧ m.step.machine.cycle ≠ m.step.machine.history.length := by
  intro m
  have hcycle : m.step.machine.cycle = 3 := by decide +kernel
  have hbefore : m.cycle = 2 := by decide +kernel
  have hlength : m.step.machine.history.length = 2 := by decide +kernel
  refine ⟨(reachable_small false true).after beforeSum, by decide +kernel, ?_, fun he => ?_, ?_⟩
  · exact ⟨⟨"?", .add, .missing .operand1⟩, by decide +kernel⟩
  · have hc : m.step.machine.cycle = m.cycle := congrArg Snapshot.cycle he
    rw [hcycle, hbefore] at hc
    cases hc
  · rw [hcycle, hlength]
    decide

end PhaseMachine.Machine
