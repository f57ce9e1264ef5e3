/-
What strictness changes. A machine and its strict counterpart go through a program together until they
come to the execute stage of its first malformed instruction. There the one passes the instruction over
and changes no storage, and the other stops for good. Which instruction is malformed is plain from the
program, the names of the registers and the size of memory, and these do not change on the way.
-/
import PhaseMachine.Machine.Snapshot
import PhaseMachine.Proofs.Execution.Complete
import PhaseMachine.Proofs.Machine.Pace
import PhaseMachine.Proofs.Machine.Soundness
import PhaseMachine.Proofs.Machine.Twin

namespace PhaseMachine.Machine

variable {τ : Type}

/-! ## The layout of storage -/

/-- Whether an instruction lacks something with the registers and the memory of the machine. -/
def lacks (m : Machine τ) (i : Instruction) : Bool :=
  !i.isComplete m.storage.registers.names m.storage.memory.size

/-- The place in the program of its first malformed instruction, or its end. -/
def firstMalformed (m : Machine τ) : Nat :=
  m.program.findIdx m.lacks

variable {m hard : Machine τ} {i : Instruction}

theorem not_lacks_of_lt {k : Nat} (hi : m.program[k]? = some i) (hlt : k < m.firstMalformed) :
    m.lacks i = false := by
  obtain ⟨hin, rfl⟩ := List.getElem?_eq_some_iff.1 hi
  exact List.not_of_lt_findIdx hlt

theorem lacks_firstMalformed (hi : m.program[m.firstMalformed]? = some i) : m.lacks i = true := by
  obtain ⟨hin, rfl⟩ := List.getElem?_eq_some_iff.1 hi
  exact List.findIdx_getElem

/-- An instruction before the first malformed one finds what it asks for. -/
theorem action_of_lt (hi : m.program[m.index]? = some i) (hw : i.WellTyped) (hlt : m.index < m.firstMalformed) :
    ∃ a, i.action m.storage = .ok a := by
  have hlacks := not_lacks_of_lt hi hlt
  rcases Instruction.action_decides (s := m.storage) hw with ⟨-, ha⟩ | ⟨hc, -⟩
  · exact ha
  · unfold lacks at hlacks
    rw [hc] at hlacks
    cases hlacks

/-- The first malformed instruction has a flaw. -/
theorem action_of_eq (hi : m.program[m.index]? = some i) (hw : i.WellTyped) (he : m.index = m.firstMalformed) :
    ∃ w, i.action m.storage = .error (.flaw w) := by
  have hlacks := lacks_firstMalformed (he ▸ hi)
  rcases Instruction.action_decides (s := m.storage) hw with ⟨hc, -⟩ | ⟨-, ha⟩
  · unfold lacks at hlacks
    rw [hc] at hlacks
    cases hlacks
  · exact ha

/-! ## Where strictness does not count -/

/-- Before the execute stage of the first malformed instruction, the work does not hang on strictness. -/
theorem work_strict (hi : m.program[m.index]? = some i) (hw : i.WellTyped)
    (hlt : m.place < 4 * m.firstMalformed + 2) (strict : Bool) :
    (m.twin strict 0 0).enter.work i = m.enter.work i := by
  by_cases hs : m.stage = .execute
  · unfold place at hlt
    rw [hs, Stage.number] at hlt
    obtain ⟨a, ha⟩ := action_of_lt hi hw (by omega)
    have hs' : (m.twin strict 0 0).stage = .execute := hs
    have ha' : i.action (m.twin strict 0 0).storage = .ok a := ha
    rw [work_execute hs, work_execute hs', Instruction.attempt_of_ok ha, Instruction.attempt_of_ok ha']
    rfl
  · have hstage : (m.twin strict 0 0).enter.stage = m.enter.stage := rfl
    unfold work
    rw [hstage]
    cases he : m.enter.stage with
    | execute => exact absurd he hs
    | _ => rfl

variable [Quantity τ]

/-- A stage other than store that leaves storage as it is sends and defers nothing. -/
theorem recorded_nothing (i : Instruction) (hs : m.stage ≠ .store) :
    (m.recorded i { storage := m.storage }).storage = m.storage ∧
      (m.recorded i { storage := m.storage }).bus = m.bus ∧
      (m.recorded i { storage := m.storage }).timers = m.timers := by
  unfold recorded carry
  dsimp only
  rw [if_neg hs]
  exact ⟨rfl, rfl, rfl⟩

/-! ## A soft machine in a program -/

/-- What holds of a machine that is not strict, from loading on. -/
structure Soft (m : Machine τ) : Prop where
  strict : m.strict = false
  sound : m.Sound
  paced : m.OnTrack ∨ m.Jammed
  typed : ∀ i ∈ m.program, i.WellTyped
  labelled : ∀ i ∈ m.program, i.id.isWritable = true

omit [Quantity τ] in
theorem Soft.place_le (h : m.Soft) : m.place ≤ 4 * m.program.length := by
  rcases h.paced with h | h
  · exact h.place ▸ h.length_le
  · obtain ⟨i, hi, -⟩ := h.current
    have hin := (List.getElem?_eq_some_iff.1 hi).1
    unfold place
    rw [h.stage, Stage.number]
    omega

theorem Sound.lacks_perform (h : m.Sound) (op : Op τ) : (m.perform op).lacks = m.lacks := by
  obtain ⟨hnames, hsize⟩ := h.layout (h.perform op) (m.blank_perform op)
  unfold lacks
  rw [hnames, hsize]

theorem Sound.firstMalformed_perform (h : m.Sound) {op : Op τ} (ho : op.restarts = false) :
    (m.perform op).firstMalformed = m.firstMalformed := by
  unfold firstMalformed
  rw [m.program_perform ho, h.lacks_perform op]

theorem Soft.perform (h : m.Soft) {op : Op τ} (ho : op.restarts = false) :
    (m.perform op).Soft ∧ (m.perform op).firstMalformed = m.firstMalformed := by
  have hprogram := m.program_perform ho
  refine ⟨⟨?_, h.sound.perform op, paced_perform h.paced h.typed ho, hprogram ▸ h.typed, hprogram ▸ h.labelled⟩,
    h.sound.firstMalformed_perform ho⟩
  rw [strict_perform]
  exact h.strict

/-! ## Two machines that differ in strictness -/

/-- The two are still the same but for strictness. -/
def Together (m hard : Machine τ) : Prop :=
  m.place ≤ 4 * m.firstMalformed + 2 ∧ hard = { m with strict := true }

/-- The strict machine has stopped at the first malformed instruction, which the other has passed. -/
def Parted (m hard : Machine τ) : Prop :=
  4 * m.firstMalformed + 2 < m.place ∧ hard.index = m.firstMalformed ∧ ∃ x, hard.FailsWith (.malformed x)

/-- Before the execute stage of the first malformed instruction, steps of the two end alike and keep
them the same. -/
theorem Soft.step_together (h : m.Soft) (hlt : m.place < 4 * m.firstMalformed + 2) :
    ({ m with strict := true } : Machine τ).step.outcome = m.step.outcome ∧
      ({ m with strict := true } : Machine τ).step.machine = { m.step.machine with strict := true } := by
  have hstep : (m.twin true 0 0).step.outcome = m.step.outcome ∧
      (m.twin true 0 0).step.machine = m.step.machine.twin true 0 0 :=
    step_twin fun i hi => work_strict hi (h.typed i (List.mem_of_getElem? hi)) hlt true
  rwa [twin_zero, twin_zero] at hstep

/-- At that stage the soft machine carries out nothing, and the strict one fails. -/
theorem Soft.step_malformed (h : m.Soft) (hat : m.place = 4 * m.firstMalformed + 2) :
    (m.step.outcome = .stepped ∧ m.step.machine.storage = m.storage ∧ m.step.machine.bus = m.bus ∧
      m.step.machine.timers = m.timers) ∧
    ∃ x, ({ m with strict := true } : Machine τ).FailsWith (.malformed x) := by
  obtain ⟨hindex, hs⟩ := place_eq_execute hat
  -- the machine is not jammed, as it is past the fetch
  have hpaced : m.OnTrack := by
    rcases h.paced with ht | hj
    · exact ht
    · rw [hj.stage] at hs; cases hs
  obtain ⟨i, hi, hshown⟩ := hpaced.current (by rw [hs]; decide)
  have hmem := List.mem_of_getElem? hi
  obtain ⟨w, ha⟩ := action_of_eq hi (h.typed i hmem) hindex
  have hwrite := h.labelled i hmem
  have hsoft : i.response m.strict (.flaw w) = .ok (.skipped (i.malformed w)) := by
    unfold Instruction.response
    rw [hwrite, h.strict]
    rfl
  have hhard : i.response true (.flaw w) = .error (.malformed (i.malformed w)) := by
    unfold Instruction.response
    rw [hwrite]
    rfl
  refine ⟨?_, _, hs, i, .flaw w, hi, ha, hhard⟩
  have hwork : m.enter.work i = .ok { storage := m.storage } := by
    rw [work_execute hs, Instruction.attempt_of_error ha, hsoft]
    rfl
  rcases step_of_ok hi hwork with ⟨text, -, ho, hstep⟩ | ⟨u, ha, -⟩
  · obtain ⟨index, stage, hp⟩ := (m.enter.recorded i { storage := m.storage }).proceed_eq
    have hs' : m.enter.stage ≠ .store := by
      show m.stage ≠ .store
      rw [hs]
      decide
    refine ⟨ho, ?_⟩
    rw [hstep, hp]
    exact recorded_nothing (m := m.enter) i hs'
  · obtain ⟨text, ht⟩ := (Instruction.assembly_ok_iff (h.typed i hmem)).2 hshown
    rw [ha] at ht
    cases ht

/-- Whatever is done to both, the two stay together or parted. -/
theorem Soft.pair_perform (h : m.Soft) (hpair : Together m hard ∨ Parted m hard) {op : Op τ}
    (ho : op.restarts = false) : Together (m.perform op) (hard.perform op) ∨ Parted (m.perform op) (hard.perform op) := by
  have hfirst := (h.perform ho).2
  rcases Op.step_or_between ho with rfl | hb
  · have hplace : (m.perform .step).place = m.step.machine.place := rfl
    rcases hpair with ⟨hle, rfl⟩ | ⟨hlt, hindex, x, hf⟩
    · rcases Nat.lt_or_eq_of_le hle with hlt | hat
      · refine .inl ⟨?_, (h.step_together hlt).2⟩
        rcases m.place_step with ⟨-, hp⟩ | ⟨-, hp⟩ <;> omega
      · -- here they part: the soft machine moves on, and the strict one cannot
        obtain ⟨⟨hstepped, -⟩, x, hf⟩ := h.step_malformed hat
        have hmoved : m.step.machine.place = m.place + 1 := by
          rcases m.place_step with ⟨-, hp⟩ | ⟨hn, -⟩
          · exact hp
          · exact absurd hstepped hn
        refine .inr ⟨by omega, ?_, x, hf.perform rfl⟩
        show ({ m with strict := true } : Machine τ).step.machine.index = _
        rw [hf.step.2, hfirst]
        exact (place_eq_execute hat).1
    · refine .inr ⟨?_, ?_, x, hf.perform rfl⟩
      · rcases m.place_step with ⟨-, hp⟩ | ⟨-, hp⟩ <;> omega
      · show hard.step.machine.index = _
        rw [hf.step.2, hfirst]
        exact hindex
  · have hplace : (m.perform op).place = m.place := by
      obtain ⟨stepDuration, bus, timers, clock, cache, he, -⟩ := m.between_eq hb
      rw [he]
      rfl
    rcases hpair with ⟨hle, rfl⟩ | ⟨hlt, hindex, x, hf⟩
    · refine .inl ⟨by rw [hplace, hfirst]; exact hle, ?_⟩
      have htwin : (m.twin true 0 0).perform op = (m.perform op).twin true 0 0 := by
        refine perform_twin fun hstep => ?_
        rw [hstep] at hb
        cases hb
      rwa [twin_zero, twin_zero] at htwin
    · refine .inr ⟨by rw [hplace, hfirst]; exact hlt, ?_, x, hf.perform ho⟩
      obtain ⟨stepDuration, bus, timers, clock, cache, he, -⟩ := hard.between_eq hb
      rw [he, hfirst]
      exact hindex

theorem Soft.pair_after (h : m.Soft) (hpair : Together m hard ∨ Parted m hard) {ops : List (Op τ)}
    (ho : ∀ op ∈ ops, op.restarts = false) :
    (m.after ops).Soft ∧ (m.after ops).firstMalformed = m.firstMalformed ∧
      (Together (m.after ops) (hard.after ops) ∨ Parted (m.after ops) (hard.after ops)) := by
  induction ops generalizing m hard with
  | nil => exact ⟨h, rfl, hpair⟩
  | cons op ops ih =>
    have hop := ho op (List.mem_cons_self ..)
    obtain ⟨hnext, hfirst⟩ := h.perform hop
    obtain ⟨hafter, hsame, hlast⟩ := ih hnext (h.pair_perform hpair hop) fun op' hop' =>
      ho op' (List.mem_cons_of_mem _ hop')
    exact ⟨hafter, hsame.trans hfirst, hlast⟩

omit [Quantity τ] in
/-- Up to the execute stage of the first malformed instruction the two are the same. -/
theorem eq_of_place_le (hpair : Together m hard ∨ Parted m hard) (hle : m.place ≤ 4 * m.firstMalformed + 2) :
    hard = { m with strict := true } := by
  rcases hpair with ⟨-, h⟩ | ⟨hlt, -⟩
  · exact h
  · omega

/-- From that stage on the strict machine fails for good. -/
theorem Soft.hard_fails (h : m.Soft) (hpair : Together m hard ∨ Parted m hard)
    (hle : 4 * m.firstMalformed + 2 ≤ m.place) :
    hard.index = m.firstMalformed ∧ ∃ x, hard.FailsWith (.malformed x) := by
  rcases hpair with ⟨hge, rfl⟩ | ⟨-, hindex, hf⟩
  · -- together still, so this is the stage where they part
    have hat := le_antisymm hge hle
    exact ⟨(place_eq_execute hat).1, (h.step_malformed hat).2⟩
  · exact ⟨hindex, hf⟩

/-! ## Every run -/

omit [Quantity τ] in
theorem Sound.withStrict (h : m.Sound) (strict : Bool) : ({ m with strict } : Machine τ).Sound :=
  ⟨h.control, h.roomy, h.empty, h.passes⟩

/-- A machine that is not strict is soft from loading on. -/
theorem Sound.soft_load (h : m.Sound) {program : Program} (hp : ∀ i ∈ program, i.WellTyped)
    (hid : ∀ i ∈ program, i.id.isWritable = true) :
    (({ m with strict := false } : Machine τ).load program).Soft where
  strict := rfl
  sound := (h.withStrict false).perform (.load program)
  paced := .inl (onTrack_load _ program)
  typed := hp
  labelled := hid

/-- The state of any setup's machine is taken as it is by a machine that is not strict and by one that is,
and a program of well-typed instructions, with ids that can be written, is loaded into both. Then the same
operations are done to both. Up to the execute stage of the first malformed instruction the two are the
same but for strictness, so their snapshots are; before it their steps end alike. With that stage the
soft machine steps on and changes no register, no cell, no line of the cache and no transfer; and from
there on every step of the strict machine fails with a malformed instruction and changes nothing but
phase and cycle. If no instruction is malformed, the two stay the same for ever. -/
theorem strict_prefix (hm : Reachable m) {program : Program} (hp : ∀ i ∈ program, i.WellTyped)
    (hid : ∀ i ∈ program, i.id.isWritable = true) {ops : List (Op τ)} (ho : ∀ op ∈ ops, op.restarts = false) :
    let soft := (({ m with strict := false } : Machine τ).load program).after ops
    let hard := (({ m with strict := true } : Machine τ).load program).after ops
    let first := program.findIdx fun i => !i.isComplete m.storage.registers.names m.storage.memory.size
    (soft.place ≤ 4 * first + 2 → hard = { soft with strict := true } ∧ hard.snapshot = soft.snapshot) ∧
    (soft.place < 4 * first + 2 → hard.step.outcome = soft.step.outcome ∧
      hard.step.machine = { soft.step.machine with strict := true }) ∧
    (soft.place = 4 * first + 2 → soft.step.outcome = .stepped ∧
      soft.step.machine.storage = soft.storage ∧ soft.step.machine.bus = soft.bus) ∧
    (4 * first + 2 ≤ soft.place → hard.index = first ∧ ∃ x, hard.step.outcome = .failed (.malformed x) ∧
      hard.step.machine = { hard with phase := .at .execute, cycle := hard.cycle + 1 }) ∧
    ((∀ i ∈ program, i.isComplete m.storage.registers.names m.storage.memory.size = true) →
      hard = { soft with strict := true } ∧ hard.step.outcome = soft.step.outcome) := by
  intro soft hard first
  have hload := hm.sound.soft_load hp hid
  have hfirst : (({ m with strict := false } : Machine τ).load program).firstMalformed = first := by
    obtain ⟨hnames, hsize⟩ := (hm.sound.withStrict false).layout hload.sound rfl
    unfold firstMalformed lacks
    rw [hnames, hsize]
    rfl
  obtain ⟨hsoft, hsame, hpair⟩ := hload.pair_after (.inl ⟨Nat.zero_le _, rfl⟩) ho
  change soft.Soft at hsoft
  change soft.firstMalformed = _ at hsame
  change Together soft hard ∨ Parted soft hard at hpair
  rw [hfirst] at hsame
  have htogether : soft.place ≤ 4 * first + 2 → hard = { soft with strict := true } := by
    rw [← hsame]
    exact eq_of_place_le hpair
  have hstep : soft.place < 4 * first + 2 → hard.step.outcome = soft.step.outcome ∧
      hard.step.machine = { soft.step.machine with strict := true } := by
    intro hlt
    rw [htogether hlt.le]
    exact hsoft.step_together (by rw [hsame]; exact hlt)
  refine ⟨fun hle => ?_, hstep, fun hat => ?_, fun hle => ?_, fun hall => ?_⟩
  · rw [htogether hle]
    exact ⟨rfl, rfl⟩
  · obtain ⟨ho', hs, hb, -⟩ := (hsoft.step_malformed (by rw [hsame]; exact hat)).1
    exact ⟨ho', hs, hb⟩
  · obtain ⟨hindex, x, hf⟩ := hsoft.hard_fails hpair (by rw [hsame]; exact hle)
    rw [hsame] at hindex
    refine ⟨hindex, x, hf.step.1, ?_⟩
    rw [hf.step.2, enter, hf.1]
  · have hend : first = program.length := by
      refine List.findIdx_eq_length_of_false fun i hi => ?_
      rw [hall i hi]
      rfl
    have hprogram : soft.program = program :=
      (({ m with strict := false } : Machine τ).load program).program_after ho
    have hle := hsoft.place_le
    rw [hprogram] at hle
    exact ⟨htogether (by omega), (hstep (by omega)).1⟩

/-- The third instruction has no operands. -/
def flawedProgram : Program :=
  [{ opcode := .load, destination := .given "R1", address := .given 2 },
    { opcode := .store, destination := .given "R1", address := .given 1 },
    { opcode := .add, destination := .given "R1" },
    { opcode := .store, destination := .given "R1", address := .given 3 }]

def flawedRun : List (Op Rat) :=
  List.replicate 6 .step ++ [.setDuration 0, .advance 700, .poll] ++ List.replicate 4 .step

/-- After the demoting run, ten steps lead the two to its execute stage with the same snapshots, and
the next one parts them. -/
theorem strict_prefix_flawed :
    let m := (small true false).after demotingRun
    let soft := (({ m with strict := false } : Machine Rat).load flawedProgram).after flawedRun
    let hard := (({ m with strict := true } : Machine Rat).load flawedProgram).after flawedRun
    soft.place = 10 ∧ hard.snapshot = soft.snapshot ∧ soft.step.outcome = .stepped ∧ hard.index = 2 ∧
      ∃ x, hard.step.outcome = .failed (.malformed x) := by
  intro m soft hard
  have hm : Reachable m := (reachable_small true false).after demotingRun
  have hp : ∀ i ∈ flawedProgram, i.WellTyped := by decide
  have hid : ∀ i ∈ flawedProgram, i.id.isWritable = true := by decide +kernel
  have ho : ∀ op ∈ flawedRun, op.restarts = false := by decide
  have hplace : soft.place = 10 := by decide +kernel
  have hfirst : (flawedProgram.findIdx fun i =>
      !i.isComplete m.storage.registers.names m.storage.memory.size) = 2 := by decide +kernel
  obtain ⟨hsame, -, hsoft, hhard, -⟩ := strict_prefix hm hp hid ho
  rw [hfirst] at hsame hsoft hhard
  obtain ⟨hindex, x, hx, -⟩ := hhard hplace.ge
  exact ⟨hplace, (hsame hplace.le).2, (hsoft hplace).1, hindex, x, hx⟩

end PhaseMachine.Machine
