/-
The shape of the history. After a program is loaded the records go through its instructions phase by
phase, and place, phase, program counter and instruction register can be read off their number, however
steps fail and whatever happens between them. It is so exactly as long as every instruction recorded can
be shown in assembly; one that cannot is recorded with its fetch again and again.
-/
import PhaseMachine.Proofs.Machine.Pace

namespace PhaseMachine.Machine

variable {τ : Type}

/-! ## Regular machines -/

/-- The history goes through the program phase by phase, and all that the machine shows of its place
belongs to the number of records. -/
structure Regular (m : Machine τ) : Prop where
  records : ∀ k r, m.history[k]? = some r →
    r.cycle = k + 1 ∧ Stage.all[k % 4]? = some r.stage ∧ m.program[k / 4]? = some r.instruction
  index : m.index = m.history.length / 4
  idle : m.nextPhase = .idle ↔ m.history.length = 4 * m.program.length
  next : m.history.length ≠ 4 * m.program.length →
    (Stage.all[m.history.length % 4]?).map Phase.at = some m.nextPhase
  pc : m.pc = m.history.countP fun r => r.stage = .fetch
  ir : m.ir = if m.pc = 0 then none else m.program[m.pc - 1]?

variable {m : Machine τ}

theorem nextPhase_of_lt (hlt : m.index < m.program.length) : m.nextPhase = .at m.stage := by
  unfold nextPhase isFinished
  rw [if_neg]
  simpa using hlt

theorem nextPhase_of_le (hle : m.program.length ≤ m.index) : m.nextPhase = .idle := by
  unfold nextPhase isFinished
  rw [if_pos]
  simpa using hle

/-- A machine on track is regular. -/
theorem OnTrack.regular (h : m.OnTrack) : m.Regular := by
  have hle := h.length_le
  have hat := h.place
  have hnum := m.stage.number_lt
  unfold Machine.place at hat
  have hidle : m.nextPhase = .idle ↔ m.history.length = 4 * m.program.length := by
    constructor
    · intro hidle
      by_contra hne
      have hlt : m.index < m.program.length := by omega
      rw [nextPhase_of_lt hlt] at hidle
      cases hidle
    · intro hlen
      exact nextPhase_of_le (by omega)
  refine ⟨fun k r hk => ?_, by omega, hidle, fun hne => ?_, h.fetches, h.ir⟩
  · obtain ⟨hcycle, hstage, hi, -⟩ := h.records k r hk
    refine ⟨hcycle, ?_, hi⟩
    rw [← hstage]
    exact r.stage.getElem?_all
  · rw [nextPhase_of_lt (by omega), show m.history.length % 4 = m.stage.number by omega,
      m.stage.getElem?_all]
    rfl

/-- A jammed machine is not: it is at a fetch where the number of records says otherwise, or has
recorded a fetch where the next phase belongs. -/
theorem Jammed.not_regular (h : m.Jammed) : ¬ m.Regular := by
  intro hr
  obtain ⟨i, hi, -⟩ := h.current
  have hin := (List.getElem?_eq_some_iff.1 hi).1
  have hlate := h.late
  by_cases hsecond : 4 * m.index + 1 < m.history.length
  · obtain ⟨-, hstage, -⟩ := hr.records _ _ (List.getElem?_eq_getElem hsecond)
    rw [h.again _ (List.getElem?_eq_getElem hsecond), show (4 * m.index + 1) % 4 = 1 by omega] at hstage
    cases hstage
  · have hlen : m.history.length = 4 * m.index + 1 := by omega
    have hnext := hr.next (by omega)
    rw [nextPhase_of_lt hin, h.stage, hlen, show (4 * m.index + 1) % 4 = 1 by omega] at hnext
    cases hnext

/-! ## Steps and their outcomes -/

variable [Quantity τ]

/-- How the steps among operations end, in order. -/
def outcomes (m : Machine τ) : List (Op τ) → List Outcome
  | [] => []
  | .step :: ops => m.step.outcome :: (m.perform .step).outcomes ops
  | op :: ops => (m.perform op).outcomes ops

theorem outcomes_between (m : Machine τ) {op : Op τ} (hb : op.between = true) (ops : List (Op τ)) :
    m.outcomes (op :: ops) = (m.perform op).outcomes ops := by
  cases op with
  | step => cases hb
  | _ => rfl

/-- If no step fails, each one carries a phase out until all of the program are recorded, and then each
finds the program over. -/
theorem OnTrack.outcomes_eq (h : m.OnTrack) (hp : ∀ i ∈ m.program, i.WellTyped) {ops : List (Op τ)}
    (ho : ∀ op ∈ ops, op.restarts = false) (hf : ∀ f, .failed f ∉ m.outcomes ops) :
    m.outcomes ops =
      List.replicate (min (stepCount ops) (4 * m.program.length - m.history.length)) .stepped ++
        List.replicate (stepCount ops - (4 * m.program.length - m.history.length)) .finished ∧
    (m.after ops).OnTrack ∧
    (m.after ops).history.length = min (m.history.length + stepCount ops) (4 * m.program.length) := by
  induction ops generalizing m with
  | nil =>
    have hzero : stepCount ([] : List (Op τ)) = 0 := rfl
    refine ⟨?_, h, (Nat.min_eq_left h.length_le).symm⟩
    rw [hzero, Nat.zero_min, Nat.zero_sub]
    rfl
  | cons op ops ih =>
    have hop := ho op (List.mem_cons_self ..)
    have hprogram := m.program_perform hop
    have hrest := fun op' hop' => ho op' (List.mem_cons_of_mem op hop')
    rw [after_cons]
    rcases Op.step_or_between hop with rfl | hb
    · have hle := h.length_le
      have hsteps : stepCount (.step :: ops) = stepCount ops + 1 := rfl
      have hcons : m.outcomes (.step :: ops) = m.step.outcome :: (m.perform .step).outcomes ops := rfl
      rw [hcons] at hf ⊢
      have hf' : ∀ f, .failed f ∉ (m.perform .step).outcomes ops := fun f hmem =>
        hf f (List.mem_cons_of_mem _ hmem)
      have hgo : (m.perform .step).OnTrack → _ := fun hnext => ih hnext (hprogram ▸ hp) hrest hf'
      rw [hprogram] at hgo
      -- once all phases are recorded, the first of the two counts stays at zero
      rcases h.step hp with ⟨hend, hlen, hnext, hsame⟩ | ⟨hend, hlt, hnext, hmore⟩ | ⟨f, hend, -⟩
      · have hn : (m.perform .step).history.length = m.history.length := hsame
        obtain ⟨hout, hafter, hl⟩ := hgo hnext
        rw [hn] at hout hl
        refine ⟨?_, hafter, by omega⟩
        rw [hout, hsteps, hend, hlen, Nat.sub_self, Nat.min_zero, Nat.min_zero]
        rfl
      · have hn : (m.perform .step).history.length = m.history.length + 1 := hmore
        obtain ⟨hout, hafter, hl⟩ := hgo hnext
        rw [hn] at hout hl
        refine ⟨?_, hafter, by omega⟩
        rw [hout, hsteps, hend, ← List.cons_append, ← List.replicate_succ]
        congr 2 <;> omega
      · exact absurd (hend ▸ List.mem_cons_self ..) (hf f)
    · obtain ⟨hnext, hhistory⟩ := h.between hb
      rw [outcomes_between m hb] at hf ⊢
      have := ih hnext (hprogram ▸ hp) hrest hf
      rwa [hprogram, hhistory, ← Nat.zero_add (stepCount ops), ← stepCount_between hb, ← stepCount_cons] at this

/-! ## Every run -/

/-- Load a program of well-typed instructions into any machine, strict or not, and let steps, polls and
changes of the clock and of the duration follow in any order. The machine is regular exactly if every
instruction in its history can be shown in assembly; once it is not, each step fails. If no step has
failed, the first steps, four for each instruction, carried a phase out, and all after them found the
program over; and from then on a step changes nothing but the phase, which is idle. -/
theorem regular_iff_shown (m : Machine τ) {program : Program} (hp : ∀ i ∈ program, i.WellTyped)
    {ops : List (Op τ)} (ho : ∀ op ∈ ops, op.restarts = false) :
    let now := (m.load program).after ops
    now.program = program ∧
    (now.Regular ↔ ∀ r ∈ now.history, r.instruction.Shown) ∧
    (¬ now.Regular → ∃ u, now.step.outcome = .failed (.misuse u)) ∧
    ((∀ f, .failed f ∉ (m.load program).outcomes ops) →
      (m.load program).outcomes ops =
        List.replicate (min (stepCount ops) (4 * program.length)) .stepped ++
          List.replicate (stepCount ops - 4 * program.length) .finished ∧
      (4 * program.length ≤ stepCount ops →
        now.step.outcome = .finished ∧ now.step.machine = { now with phase := .idle })) := by
  intro now
  have hload := m.onTrack_load program
  have hprogram : now.program = program := (m.load program).program_after ho
  have hnow : now.OnTrack ∨ now.Jammed := paced_after (.inl hload) hp ho
  refine ⟨hprogram, ?_, fun hnot => ?_, fun hf => ?_⟩
  · rcases hnow with h | h
    · refine ⟨fun _ r hr => ?_, fun _ => h.regular⟩
      obtain ⟨k, hk⟩ := List.mem_iff_getElem?.1 hr
      exact (h.records k r hk).2.2.2
    · refine ⟨fun hr => absurd hr h.not_regular, fun hshown => ?_⟩
      obtain ⟨r, hr, hn⟩ := h.recorded
      exact absurd (hshown r hr) hn
  · rcases hnow with h | h
    · exact absurd h.regular hnot
    · exact (h.step (hprogram ▸ hp)).1
  · have hlen : (m.load program).history.length = 0 := rfl
    obtain ⟨hout, hafter, hl⟩ := hload.outcomes_eq hp ho hf
    rw [hlen] at hout hl
    refine ⟨hout, fun hsteps => ?_⟩
    have hl : now.history.length = min (0 + stepCount ops) (4 * program.length) := hl
    have hat : now.history.length = 4 * now.index + now.stage.number := hafter.place
    have hnum := now.stage.number_lt
    have hend : now.program[now.index]? = none := by
      rw [List.getElem?_eq_none_iff, hprogram]
      omega
    exact step_of_none hend

/-- The second instruction stops a strict machine again and again: the clock goes on, but the history
stays regular. -/
def stoppingProgram : Program :=
  [{ opcode := .mov, operand1 := some (.literal 7), destination := .given "R1" },
    { opcode := .add, destination := .given "R1" }]

def stoppingSteps : List (Op Rat) :=
  List.replicate 6 .step ++ [.advance 1000, .poll] ++ List.replicate 3 .step

theorem regular_iff_shown_stopping :
    let now := ((small false true).load stoppingProgram).after stoppingSteps
    now.Regular ∧ now.history.length = 6 ∧ now.cycle = 9 ∧ now.nextPhase = .at .execute ∧
      now.pc = 2 ∧ now.ir.map (·.opcode) = some .add := by
  intro now
  have hp : ∀ i ∈ stoppingProgram, i.WellTyped := by decide
  have ho : ∀ op ∈ stoppingSteps, op.restarts = false := by decide
  obtain ⟨-, hregular, -, -⟩ := regular_iff_shown (small false true) hp ho
  have hshown : ∀ r ∈ now.history, r.instruction.Shown := by decide +kernel
  refine ⟨hregular.2 hshown, ?_, ?_, ?_, ?_, ?_⟩ <;> decide +kernel

/-- One instruction, well-typed, with an operand of one digit too many. -/
def longProgram : Program :=
  [{ opcode := .mov, operand1 := some (.literal Numeral.writingLimit), destination := .given "R1" }]

/-- After its fetch, which fails but is recorded, the machine is before the same fetch again. -/
theorem not_regular_long :
    (∀ i ∈ longProgram, i.WellTyped) ∧
    ((small false false).load longProgram).step.outcome = .failed (.misuse .unwritable) ∧
    (((small false false).load longProgram).after [.step]).history.length = 1 ∧
    (((small false false).load longProgram).after [.step]).nextPhase = .at .fetch ∧
    ¬ (((small false false).load longProgram).after [.step]).Regular := by
  refine ⟨by decide, by decide +kernel, by decide +kernel, by decide +kernel, fun hr => ?_⟩
  have hnext := hr.next (by decide +kernel)
  revert hnext
  decide +kernel

end PhaseMachine.Machine
