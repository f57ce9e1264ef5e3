/-
What accepted configurations run. The address of an instruction is read as an integer, and samples are
well-typed, so a machine that was configured can fail at few things: a destination that is no text, an
operand that is too long to be shown, and the id of a malformed instruction that is. Without them it lists
its program, runs through it and passes over what is malformed.
-/
import PhaseMachine.Proofs.Config.Building
import PhaseMachine.Proofs.Machine.Steps

namespace PhaseMachine.Config

/-! ## Programs that were built -/

/-- A program whose addresses are integers where there are any. -/
def Addressed (p : Program) : Prop :=
  ∀ i ∈ p, i.address.isProper = true

theorem draftOf_address {entries : Entries} (h : Accepted entries) (index : Nat) (opcode : String) :
    (Field.ofNumber (draftOf index opcode entries).address).isProper = true := by
  show (Field.ofNumber ((Value.field? entries "address").getD .null)).isProper = true
  cases ha : Value.field? entries "address" with
  | none => rfl
  | some a =>
    obtain ⟨n, rfl⟩ := h.address a ha
    rfl

theorem ofDraft_address {d : Instruction.Draft} {i : Instruction} (h : Instruction.ofDraft d = .ok i) :
    i.address = .ofNumber d.address := by
  obtain ⟨opcode, -, h⟩ := bind_ok h
  obtain ⟨operand1, -, h⟩ := bind_ok h
  obtain ⟨operand2, -, h⟩ := bind_ok h
  cases h
  rfl

theorem buildInstruction_address {entries : Entries} (ha : Accepted entries) {index : Nat} {i : Instruction}
    (h : buildInstruction index (.map entries) = .ok i) : i.address.isProper = true := by
  obtain ⟨given, hg, h⟩ := bind_ok h
  cases hg
  split at h
  · cases h
  · obtain ⟨opcode, -, h⟩ := bind_ok h
    split at h
    · cases h
    · rw [ofDraft_address (mapError_ok h)]
      exact draftOf_address ha index opcode

theorem buildInstructions_addressed {accepted : List Entries} (ha : ∀ e ∈ accepted, Accepted e) {p : Program}
    (h : buildInstructions (.list (accepted.map Value.map)) = .ok p) : Addressed p := by
  intro i hi
  obtain ⟨items, hitems, h⟩ := bind_ok h
  cases hitems
  obtain ⟨q, hq, hread⟩ := mem_of_mapM_ok h hi
  obtain ⟨e, he, heq⟩ := List.mem_map.1 (List.fst_mem_of_mem_zipIdx hq)
  rw [← heq] at hread
  exact buildInstruction_address (ha e he) hread

theorem addressed_calculator (a b : Int) (o : Samples.Operation) : Addressed (Samples.calculator a b o) := by
  unfold Addressed Samples.calculator
  simp [Field.isProper]

theorem addressed_trafficLight (l : Samples.Light) (car : Bool) : Addressed (Samples.trafficLight l car) := by
  cases l <;> cases car <;> unfold Addressed <;> decide

theorem buildCalculator_addressed {plan : ProgramPlan} {p : Program} (h : buildCalculator plan = .ok p) :
    Addressed p := by
  obtain ⟨a, -, h⟩ := bind_ok h
  obtain ⟨b, -, h⟩ := bind_ok h
  obtain ⟨operation, -, h⟩ := bind_ok h
  have h := mapError_ok h
  unfold Samples.calculatorFor at h
  split at h
  · next o _ =>
    split at h
    · cases h
      exact addressed_calculator a b o
    · cases h
  · cases h

theorem buildTrafficLight_addressed {plan : ProgramPlan} {p : Program} (h : buildTrafficLight plan = .ok p) :
    Addressed p := by
  obtain ⟨state, -, h⟩ := bind_ok h
  obtain ⟨sensor, -, h⟩ := bind_ok h
  have h := mapError_ok h
  unfold Samples.trafficLightFor at h
  split at h
  · next l _ =>
    cases h
    exact addressed_trafficLight l _
  · cases h

theorem buildProgram_addressed {plan : ProgramPlan} (hplan : plan.Read) {p : Program}
    (h : buildProgram plan = .ok p) : Addressed p := by
  unfold buildProgram at h
  split at h
  · next hs =>
    obtain ⟨accepted, hi, ha⟩ := hplan.instructions hs
    rw [hi] at h
    exact buildInstructions_addressed ha h
  · split at h
    · exact buildCalculator_addressed h
    · split at h
      · exact buildTrafficLight_addressed h
      · cases h
  · cases h

/-! ## Running what was configured -/

/-- A machine that was configured is before the first step of a program that was built. -/
theorem configure_ok {v : Value} {clock : Float} {b : Built} (h : configure v clock = .ok b) :
    b.machine.AtStart ∧ Addressed b.machine.program := by
  obtain ⟨s, hs, h⟩ := bind_ok h
  obtain ⟨m, hm, h⟩ := bind_ok h
  have hm := mapError_ok hm
  split at h
  · cases h
    refine ⟨Machine.atStart_of_setup hm, ?_⟩
    rw [(Machine.ofSetup_ok hm).2.2]
    exact fun i hi => by cases hi
  · next plan hplan =>
    obtain ⟨p, hp, h⟩ := bind_ok h
    cases h
    exact ⟨(Machine.sound_of_setup hm).atStart_load p, buildProgram_addressed (readSystem_ok hs hplan) hp⟩

/-- A machine that was configured not to be strict lists its program, runs through it and passes over
what lacks something, exactly if each destination is a text where there is one, each operand can be shown,
and so can the id of each instruction that lacks something. -/
theorem configure_runs_iff {v : Value} {clock : Float} {b : Built} (h : configure v clock = .ok b)
    (hs : b.machine.strict = false) :
    ((∃ lines, listing b.machine.program = .ok lines) ∧ b.machine.RunsThrough ∧ b.machine.PassesOver) ↔
      ∀ i ∈ b.machine.program, i.destination.isProper = true ∧ i.Shown ∧
        (i.isComplete b.machine.storage.registers.names b.machine.storage.memory.size = true ∨
          i.id.isWritable = true) := by
  obtain ⟨hm, haddressed⟩ := configure_ok h
  have hlisting := Instruction.listingFrom_ok_iff haddressed 0
  constructor
  · rintro ⟨hlines, hruns, -⟩ i hi
    have hproper := hlisting.1 hlines
    have htyped : ∀ i ∈ b.machine.program, i.WellTyped := fun i hi => ⟨(hproper i hi).1, haddressed i hi⟩
    obtain ⟨-, hshown, hc⟩ := (Machine.runsThrough_iff_faultless hm htyped).1 hruns i hi
    exact ⟨(hproper i hi).1, hshown, hc.imp_right And.right⟩
  · intro hall
    have htyped : ∀ i ∈ b.machine.program, i.WellTyped := fun i hi => ⟨(hall i hi).1, haddressed i hi⟩
    have hfaultless : b.machine.Faultless := fun i hi =>
      ⟨htyped i hi, (hall i hi).2.1, (hall i hi).2.2.imp_right fun hid => ⟨hs, hid⟩⟩
    have hruns := hfaultless.runsThrough hm
    exact ⟨hlisting.2 fun i hi => ⟨(hall i hi).1, (hall i hi).2.1⟩, hruns,
      hruns.passesOver hm htyped⟩

/-- A configuration of a program, given by its instructions. -/
def programOf (instructions : List Entries) : Value :=
  .map [(.str "program", .map [(.str "instructions", .list (instructions.map Value.map))])]

/-- A store without a destination, and one more instruction. -/
def flawedEntries : List Entries :=
  [[(.str "opcode", .str "store"), (.str "address", .str "0xFFFF")],
    [(.str "opcode", .str "HALT"), (.str "destination", .str "R9")]]

theorem isSome_flawed : (configure (programOf flawedEntries) 0.0).toOption.isSome = true := by
  decide +kernel

/-- The machine is built, and not strict. Its first instruction lacks something. -/
theorem configure_runs_iff_flawed :
    let b := (configure (programOf flawedEntries) 0.0).toOption.get isSome_flawed
    b.machine.strict = false ∧
      (b.machine.program.map fun i =>
        i.isComplete b.machine.storage.registers.names b.machine.storage.memory.size) = [false, true] ∧
      (∃ lines, listing b.machine.program = .ok lines) ∧ b.machine.RunsThrough ∧ b.machine.PassesOver := by
  intro b
  have hs : b.machine.strict = false := by decide +kernel
  refine ⟨hs, by decide +kernel, (configure_runs_iff (Machine.eq_ok_get isSome_flawed) hs).2 ?_⟩
  decide +kernel

/-- The destination is an integer. -/
def foreignEntries : List Entries :=
  [[(.str "opcode", .str "HALT"), (.str "destination", .int 5)]]

theorem isSome_foreign : (configure (programOf foreignEntries) 0.0).toOption.isSome = true := by
  decide +kernel

/-- That program is accepted, but it cannot be listed, and its first step fails. -/
theorem configure_fails_foreign :
    ∃ b, configure (programOf foreignEntries) 0.0 = .ok b ∧ b.machine.strict = false ∧
      listing b.machine.program = .error .wrongKind ∧
      b.machine.step.outcome = .failed (.misuse .wrongKind) ∧
      ¬ ((∃ lines, listing b.machine.program = .ok lines) ∧ b.machine.RunsThrough ∧ b.machine.PassesOver) := by
  have hok := Machine.eq_ok_get isSome_foreign
  refine ⟨_, hok, by decide +kernel, by decide +kernel, by decide +kernel, ?_⟩
  rintro ⟨-, hruns, -⟩
  exact hruns.not_failed 0 (.misuse .wrongKind) (by decide +kernel)

end PhaseMachine.Config
