/-
The machine computes what the flat machine computes, as long as it comes to no integer that it cannot
write. The two go in step: each stage changes the same values, ends in the same way and is recorded with
the same changes, and what happens to timers, to the clock and to the duration of steps in between changes
nothing. The cache does not show because it stays coherent; the counter of fetches does not show because it
is the place after the instruction.
-/
import PhaseMachine.Proofs.Flat.Instruction
import PhaseMachine.Proofs.Machine.Legible

namespace PhaseMachine

namespace Machine

/-! ## Agreement -/

/-- How a step of the machine ends that answers as the flat machine does. -/
def Outcome.answering : Except Malformed Bool → Outcome
  | .ok true => .stepped
  | .ok false => .finished
  | .error x => .failed (.malformed x)

variable {τ : Type}

/-- The flat machine at the start of a program, with the values of this one. -/
def flat (m : Machine τ) (program : Program) : FlatMachine :=
  { strict := m.strict, values := m.storage.values, program }

/-- The machine shows what the flat machine has. -/
structure Agrees (m : Machine τ) (f : FlatMachine) : Prop where
  strict : m.strict = f.strict
  values : m.storage.values = f.values
  program : m.program = f.program
  index : m.index = f.index
  stage : m.stage = f.stage
  pc : m.pc = f.pc
  ir : m.ir = f.ir
  history : m.history.map Record.changes = f.history

theorem agrees_load (m : Machine τ) (program : Program) : (m.load program).Agrees (m.flat program) :=
  ⟨rfl, (m.still_load program).values, rfl, rfl, rfl, rfl, rfl, rfl⟩

/-! ## One step -/

/-- Work with the changes of the flat machine's, or stopped by the same malformed instruction. -/
def SameWork (work : Except Failure Effect) (flat : Except Malformed (List Change)) : Prop :=
  (∃ e, work = .ok e ∧ flat = .ok e.changes) ∨ ∃ x, work = .error (.malformed x) ∧ flat = .error x

/-- The work of a stage has the changes of the flat machine, or stops at the same malformed instruction,
unless there is an id that cannot be written. -/
theorem work_agrees {m : Machine τ} {f : FlatMachine} (hm : m.Sound) (h : m.Agrees f) (hf : f.Counted)
    {i : Instruction} (hi : i.WellTyped) :
    SameWork (m.enter.work i) (f.work i) ∨ m.enter.work i = .error (.misuse .unwritable) := by
  have hstage : m.enter.stage = f.stage := h.stage
  unfold work FlatMachine.work
  rw [hstage]
  cases hs : f.stage with
  | fetch =>
    -- the machine counts its fetches; the flat machine goes by the place in the program
    have hpc : f.index + 1 = m.enter.pc + 1 := by
      unfold FlatMachine.Counted at hf
      rw [if_pos hs, ← h.pc] at hf
      exact congrArg (· + 1) hf.symm
    rw [hpc, ← h.values, Storage.register?_values]
    exact .inl (.inl ⟨_, rfl, rfl⟩)
  | decode => exact .inl (.inl ⟨_, rfl, rfl⟩)
  | store => exact .inl (.inl ⟨_, rfl, rfl⟩)
  | execute =>
    -- the only stage that asks the cache, which is coherent in every sound machine
    have hattempt := Instruction.attempt_tried hi hm.roomy_storage hm.coherent_storage m.strict m.enter.cycle
    rw [← h.strict, ← h.values]
    dsimp only
    rw [show m.enter.strict = m.strict from rfl, show m.enter.storage = m.storage from rfl]
    rcases hattempt with ⟨e, ha, ht⟩ | ⟨x, ha, ht⟩ | ⟨x, ha, ht⟩ | ha
    · rw [ha, ht]
      exact .inl (.inl ⟨_, rfl, rfl⟩)
    · rw [ha, ht]
      exact .inl (.inl ⟨_, rfl, rfl⟩)
    · rw [ha, ht]
      exact .inl (.inr ⟨x, rfl, rfl⟩)
    · rw [ha]
      exact .inr rfl

theorem agrees_proceed {m : Machine τ} {f : FlatMachine} (h : m.Agrees f) : m.proceed.Agrees f.proceed := by
  unfold proceed FlatMachine.proceed
  rw [h.stage]
  cases f.stage.next? with
  | some stage => exact { h with stage := rfl }
  | none => exact { h with stage := rfl, index := congrArg (· + 1) h.index }

variable [Quantity τ]

/-- Machines that agree before a stage agree once its work is recorded. -/
theorem agrees_recorded {m : Machine τ} {f : FlatMachine} (hm : m.Sound) (h : m.Agrees f) (hf : f.Counted)
    {i : Instruction} {e : Effect} (hw : m.enter.work i = .ok e) :
    (m.enter.recorded i e).Agrees (f.carry i e.changes) := by
  have he := (work_faithful (m := m.enter) (hm.mem_names (by decide)) hw).leads.replay_eq
  obtain ⟨bus, timers, hr⟩ := m.enter.recorded_eq i e
  rw [hr]
  have hstage : m.enter.stage = f.stage := h.stage
  refine ⟨h.strict, ?_, h.program, h.index, h.stage, ?_, ?_, ?_⟩
  · show e.storage.values = Change.replay f.values e.changes
    rw [← h.values]
    exact he.symm
  · show (if m.enter.stage = .fetch then m.enter.pc + 1 else m.enter.pc) =
      if f.stage = .fetch then f.index + 1 else f.pc
    unfold FlatMachine.Counted at hf
    rw [hstage]
    split
    · next hs =>
      rw [if_pos hs, ← h.pc] at hf
      exact congrArg (· + 1) hf
    · exact h.pc
  · show (if m.enter.stage = .fetch then some i else m.enter.ir) = if f.stage = .fetch then some i else f.ir
    rw [hstage, ← h.ir]
    rfl
  · show (m.history ++ [m.enter.entry i e]).map Record.changes = f.history ++ [e.changes]
    rw [List.map_append, h.history]
    rfl

/-- Machines that agree take steps that end alike, and agree after them, unless the step comes to an integer
that cannot be written. -/
theorem agrees_step {m : Machine τ} {f : FlatMachine} (hm : m.Sound) (h : m.Agrees f) (hf : f.Counted)
    (hp : ∀ i ∈ f.program, i.WellTyped) (hu : ∀ u, m.step.outcome ≠ .failed (.misuse u)) :
    m.step.outcome = .answering f.step.1 ∧ m.step.machine.Agrees f.step.2 := by
  have hat : m.program[m.index]? = f.program[f.index]? := by rw [h.program, h.index]
  have hwork : ∀ {i : Instruction}, m.program[m.index]? = some i →
      SameWork (m.enter.work i) (f.work i) ∨ m.enter.work i = .error (.misuse .unwritable) := fun hi =>
    work_agrees hm h hf (hp _ (List.mem_of_getElem? (hat ▸ hi)))
  unfold FlatMachine.step
  rw [← hat]
  rcases m.step_cases with ⟨hi, ho, hs⟩ | ⟨i, x, hi, hw, ho, hs⟩ | ⟨i, e, text, hi, hw, -, ho, hs⟩ |
    ⟨i, e, u, -, -, -, ho, -⟩
  · rw [ho, hs, hi]
    exact ⟨rfl, { h with }⟩
  · have hsame := hwork hi
    rw [hw] at hsame
    rcases hsame with (⟨e, he, -⟩ | ⟨y, hy, hflat⟩) | hmisuse
    · cases he
    · cases hy
      rw [ho, hs, hi]
      dsimp only
      rw [hflat]
      -- a stage that fails costs a cycle, which the flat machine does not count
      exact ⟨rfl, { h with }⟩
    · cases hmisuse
      exact absurd ho (hu _)
  · have hsame := hwork hi
    rw [hw] at hsame
    rcases hsame with (⟨e', he, hflat⟩ | ⟨y, hy, -⟩) | hmisuse
    · cases he
      rw [ho, hs, hi]
      dsimp only
      rw [hflat]
      exact ⟨rfl, agrees_proceed (agrees_recorded hm h hf hw)⟩
    · cases hy
    · cases hmisuse
  · exact absurd ho (hu u)

/-! ## Every run -/

/-- What is done between steps does not show. -/
theorem agrees_between {m : Machine τ} {f : FlatMachine} (h : m.Agrees f) {op : Op τ}
    (hb : op.between = true) : (m.perform op).Agrees f := by
  have hv := (m.still_between hb).values
  obtain ⟨stepDuration, bus, timers, clock, cache, he, -⟩ := m.between_eq hb
  rw [he] at hv ⊢
  exact { h with values := hv.trans h.values }

/-- So agreement stays through operations whose steps come to no integer that cannot be written. -/
theorem agrees_after {m : Machine τ} {f : FlatMachine} (hm : m.Sound) (h : m.Agrees f) (hf : f.Counted)
    (hp : ∀ i ∈ f.program, i.WellTyped) {ops : List (Op τ)} (ho : ∀ op ∈ ops, op.restarts = false)
    (hu : ∀ u, .failed (.misuse u) ∉ m.outcomes ops) :
    m.outcomes ops = (f.answers (stepCount ops)).map .answering ∧
      (m.after ops).Agrees (f.after (stepCount ops)) := by
  induction ops generalizing m f with
  | nil => exact ⟨rfl, h⟩
  | cons op ops ih =>
    have hrest : ∀ op' ∈ ops, op'.restarts = false := fun op' hop' => ho op' (List.mem_cons_of_mem _ hop')
    rw [after_cons]
    rcases Op.step_or_between (ho op (List.mem_cons_self ..)) with rfl | hb
    · have hfirst : ∀ u, m.step.outcome ≠ .failed (.misuse u) := fun u he =>
        hu u (List.mem_cons.2 (.inl he.symm))
      obtain ⟨hend, hnext⟩ := agrees_step hm h hf hp hfirst
      obtain ⟨houtcomes, hafter⟩ := ih (hm.perform .step) hnext (FlatMachine.counted_step hf)
        (by rwa [FlatMachine.program_step]) hrest fun u hmem => hu u (List.mem_cons_of_mem _ hmem)
      refine ⟨?_, hafter⟩
      show m.step.outcome :: (m.perform .step).outcomes ops = _
      rw [houtcomes, hend]
      rfl
    · rw [outcomes_between m hb] at hu ⊢
      rw [stepCount_cons, stepCount_between hb, Nat.zero_add]
      exact ih (hm.perform op) (agrees_between h hb) hf hp hrest hu

/-- Whatever is done between the steps, each one answers as the flat machine does and leaves the same
values, program counter, instruction register and changes in the history. -/
def Refines (m : Machine τ) (f : FlatMachine) : Prop :=
  ∀ ops : List (Op τ), (∀ op ∈ ops, op.restarts = false) →
    (m.after ops).Agrees (f.after (stepCount ops)) ∧
    (m.after ops).step.outcome = .answering (f.after (stepCount ops)).step.1 ∧
    (m.after ops).step.machine.Agrees (f.after (stepCount ops)).step.2

/-- A loaded program that can be written makes the machine do what the flat machine does. -/
theorem refines_of_legible {m : Machine τ} (hm : m.Sound) {program : Program} (hp : ∀ i ∈ program, i.WellTyped)
    (hl : (m.load program).Legible) : (m.load program).Refines (m.flat program) := by
  intro ops ho
  have hload : (m.load program).Lucid := ⟨hm.perform (.load program), hp, hl, fun _ => Nat.zero_le _⟩
  have hcount : (m.flat program).Counted := rfl
  have hnow := hload.after ho
  have hagree := (agrees_after hload.sound (m.agrees_load program) hcount hp ho (hload.outcomes ho)).2
  exact ⟨hagree, agrees_step hnow.sound hagree (hcount.after _) (by rwa [FlatMachine.program_after]) hnow.step⟩

omit [Quantity τ] in
theorem answering_ne_misuse (answer : Except Malformed Bool) (u : Misuse) :
    Outcome.answering answer ≠ .failed (.misuse u) := by
  rcases answer with x | b
  · simp [Outcome.answering]
  · cases b <;> simp [Outcome.answering]

/-- Take any machine that a setup can come to and load a program of well-typed instructions. The machine does
what the flat machine with its values does, for ever and whatever is done between the steps, exactly if the
program can be written: all operands that it comes to, and the ids of the instructions that it would have to
report. All programs whose integers can be written are such. For any other the steps among any operations
end as those of the flat machine do exactly as long as none comes to an integer that cannot be written, and
up to there the two agree. -/
theorem refines_flat_iff {m : Machine τ} (hm : Reachable m) {program : Program}
    (hp : ∀ i ∈ program, i.WellTyped) :
    ((m.load program).Refines (m.flat program) ↔ (m.load program).Legible) ∧
    ((∀ i ∈ program, i.Writable) → (m.load program).Refines (m.flat program)) ∧
    ∀ ops : List (Op τ), (∀ op ∈ ops, op.restarts = false) →
      ((m.load program).outcomes ops = ((m.flat program).answers (stepCount ops)).map .answering ↔
        ∀ u, .failed (.misuse u) ∉ (m.load program).outcomes ops) ∧
      ((∀ u, .failed (.misuse u) ∉ (m.load program).outcomes ops) →
        ((m.load program).after ops).Agrees ((m.flat program).after (stepCount ops))) := by
  have hload : (m.load program).Sound := (hm.perform (.load program)).sound
  refine ⟨⟨fun h => ?_, refines_of_legible hm.sound hp⟩,
    fun hw => refines_of_legible hm.sound hp (legible_of_writable hw), fun ops ho => ⟨⟨fun h u hmem => ?_, fun hu => ?_⟩,
      fun hu => ?_⟩⟩
  · -- plain steps that answer as the flat machine does come to no such integer
    refine legible_of_ne_misuse hload hp rfl fun n u hu => ?_
    obtain ⟨-, hend, -⟩ := h (List.replicate n .step) fun op => not_restarts_of_mem
    rw [← steps_eq_after, hu] at hend
    exact answering_ne_misuse _ u hend.symm
  · rw [h] at hmem
    obtain ⟨answer, -, hanswer⟩ := List.mem_map.1 hmem
    exact answering_ne_misuse answer u hanswer
  · exact (agrees_after hload (m.agrees_load program) rfl hp ho hu).1
  · exact (agrees_after hload (m.agrees_load program) rfl hp ho hu).2

/-- A program that reads a cell whose line has moved down in the cache, and counts it up. -/
def countUp : Program :=
  [{ opcode := .load, destination := .given "R1", address := .given 2 },
    { opcode := .add, operand1 := some (.register "R1"), operand2 := some (.literal 1),
      destination := .given "R1" },
    { opcode := .store, destination := .given "R1", address := .given 2 }]

/-- The steps of that program, with timers going off in between. -/
def countUpRun : List (Op Rat) :=
  List.replicate 3 .step ++ [.advance 5000, .poll] ++ List.replicate 5 .step ++ [.setDuration 10] ++
    List.replicate 3 .step

/-- After the demoting run, the machine and the flat machine count the cell up alike. -/
theorem refines_flat_iff_countUp :
    let start := (small true false).after demotingRun
    (start.load countUp).Refines (start.flat countUp) ∧
    ((start.load countUp).after countUpRun).storage.values =
      ((start.flat countUp).after (stepCount countUpRun)).values ∧
    ((start.flat countUp).after (stepCount countUpRun)).values.cell? 2 = some 8 ∧
    ((start.load countUp).after countUpRun).step.outcome = .stepped := by
  intro start
  have hstart : Reachable start := (reachable_small true false).after demotingRun
  have hp : ∀ i ∈ countUp, i.WellTyped := by decide
  have ho : ∀ op ∈ countUpRun, op.restarts = false := by decide
  have hrefines := (refines_flat_iff hstart hp).2.1 (by decide +kernel)
  obtain ⟨hagree, hend, -⟩ := hrefines countUpRun ho
  refine ⟨hrefines, hagree.values, ?_, ?_⟩
  · rw [← hagree.values]
    decide +kernel
  · rw [hend]
    decide +kernel

/-- An operand of one digit too many stops the machine at a fetch that it has recorded, and it makes that
fetch again, with another place in the program counter. The flat machine goes on from there. -/
theorem not_refines_flat_long :
    let start := small false false
    Reachable start ∧ (∀ i ∈ longProgram, i.WellTyped) ∧
    (start.load longProgram).step.outcome = .failed (.misuse .unwritable) ∧
    (start.flat longProgram).step.1 = .ok true ∧
    ((start.load longProgram).after [.step, .step]).pc = 2 ∧ ((start.flat longProgram).after 2).pc = 1 ∧
    ¬ (start.load longProgram).Refines (start.flat longProgram) := by
  intro start
  have hstep : (start.load longProgram).step.outcome = .failed (.misuse .unwritable) := by decide +kernel
  refine ⟨reachable_small false false, by decide, hstep, by decide +kernel, by decide +kernel, by decide +kernel,
    fun h => ?_⟩
  obtain ⟨-, hend, -⟩ := h [] fun op hop => absurd hop List.not_mem_nil
  rw [show (start.load longProgram).step.outcome = _ from hend] at hstep
  exact answering_ne_misuse _ _ hstep

end Machine

end PhaseMachine
