/-
What the conditions of breakpoints mean. A condition speaks of the record of the latest phase and of the
machine after it. The debugger does not look at the changes of registers that a record lists, but compares
the values of registers before and after the phase; that comes to the same, because a phase changes one
register at most and its record is exact.
-/
import PhaseMachine.Debugger.Basic
import PhaseMachine.Proofs.Machine.Steps

namespace PhaseMachine

/-! ## One change of a register -/

namespace Change

variable {v w : Values}

/-- Changes of memory are none of registers. -/
theorem register?_replay_memory (v : Values) (changes : List MemoryChange) (name : String) :
    (replay v (changes.map .memory)).register? name = v.register? name := by
  induction changes generalizing v with
  | nil => rfl
  | cons c changes ih => exact (ih _).trans (v.register?_setCell c.address c.new name)

/-- An exact log with one change of a register at most tells which register has another value. -/
theorem Leads.changed_iff {registers : List RegisterChange} {memory : List MemoryChange}
    (h : Leads v (registers.map .register ++ memory.map .memory) w) (hone : registers.length ≤ 1)
    (name : String) :
    w.register? name ≠ v.register? name ↔ ∃ c ∈ registers, c.name = name ∧ c.old ≠ c.new := by
  obtain ⟨hexact, rfl⟩ := h
  rw [replay_append, register?_replay_memory]
  match registers, hone with
  | [], _ => simp [replay]
  | [c], _ =>
    have hold : v.register? c.name = some c.old := hexact.1
    have hnew : (replay v ([c].map .register)).register? name = _ := v.register?_setRegister c.name c.new name
    rw [hnew]
    by_cases hn : c.name = name
    · subst hn
      simp [hold, eq_comm]
    · simp [hn]

end Change

theorem Action.registerChanges_le (a : Action) (s : Storage) (cycle : Int) :
    (a.effect s cycle).registerChanges.length ≤ 1 := by
  cases a with
  | storeCell source address old => exact Nat.zero_le _
  | nothing => exact Nat.zero_le _
  | _ => exact le_refl _

theorem Machine.registerChanges_le {τ : Type} {m : Machine τ} {i : Instruction} {e : Effect}
    (h : m.work i = .ok e) : e.registerChanges.length ≤ 1 := by
  unfold work at h
  split at h
  · cases h; exact le_refl _
  · cases h; exact Nat.zero_le _
  · cases ha : i.attempt m.strict m.storage m.cycle with
    | error f => rw [ha] at h; cases h
    | ok a =>
      rw [ha] at h
      cases h
      cases a with
      | skipped x => exact Nat.zero_le _
      | done e =>
        obtain ⟨a, -, -, rfl⟩ := Instruction.execute_ok (Instruction.attempt_done ha)
        exact a.registerChanges_le m.storage m.cycle
  · cases h; exact Nat.zero_le _

/-! ## Conditions -/

namespace Breakpoint

variable {τ : Type}

/-- What the condition says of the record of the latest phase and the machine after it. -/
def Holds (b : Breakpoint) (m : Machine τ) (r : Record) : Prop :=
  match b.kind with
  | .phase => b.phase = some (.at r.stage)
  | .opcode => r.stage = .execute ∧ b.opcode = some r.instruction.opcode
  | .instructionIndex => m.nextPhase = .at .fetch ∧ b.value = some ↑m.index
  | .memoryWrite => ∃ c ∈ r.memoryChanges, b.address = some c.address
  | .registerValue => ∃ name ∈ b.register, ∃ x ∈ m.storage.registers.value? name, b.value = some x
  | .registerChange => ∃ c ∈ r.registerChanges, b.register = some c.name ∧ c.old ≠ c.new

def Met (b : Breakpoint) (m : Machine τ) (r : Record) : Prop :=
  b.enabled = true ∧ b.Holds m r

/-! ## The debugger's checks -/

variable (b : Breakpoint)

theorem valueIn_toMap (s : Storage) :
    b.valueIn s.registers.toMap = b.register.bind fun name => s.values.register? name := by
  unfold valueIn
  congr 1

theorem holdsValue_iff (s : Storage) :
    b.holdsValue s.registers.toMap = true ↔
      ∃ name ∈ b.register, ∃ x ∈ s.registers.value? name, b.value = some x := by
  unfold holdsValue
  rw [valueIn_toMap]
  cases b.register with
  | none => simp
  | some name =>
    simp only [Option.bind_some, Storage.register?_values, Option.mem_def, Option.some.injEq, exists_eq_left']
    cases s.registers.value? name with
    | none => simp
    | some x => simp

/-- A register with another value is one of the same layout with a change in the log. -/
theorem sawChange_iff {s t : Storage} (hnames : t.values.names = s.values.names) :
    b.sawChange s.registers.toMap t.registers.toMap = true ↔
      ∃ name ∈ b.register, t.values.register? name ≠ s.values.register? name := by
  unfold sawChange
  rw [valueIn_toMap, valueIn_toMap]
  cases b.register with
  | none => simp
  | some name =>
    have hsome : (t.values.register? name).isSome ↔ (s.values.register? name).isSome := by
      rw [Values.isSome_register?, Values.isSome_register?, hnames]
    simp only [Option.bind_some, Option.mem_def, Option.some.injEq, exists_eq_left']
    cases hs : s.values.register? name with
    | none =>
      have ht : t.values.register? name = none := by simpa [hs] using hsome
      simp [ht]
    | some x =>
      obtain ⟨y, ht⟩ := Option.isSome_iff_exists.1 (hsome.2 (by rw [hs]; rfl))
      simp only [ht, bne_iff_ne, ne_eq, Option.some.injEq]
      exact not_congr eq_comm

variable [Quantity τ]

/-- The record of a phase tells which registers have another value after it. -/
theorem changed_step {m : Machine τ} (hm : m.Sound) (ho : m.step.outcome = .stepped) {r : Record}
    (hr : m.step.machine.history.getLast? = some r) :
    b.sawChange m.storage.registers.toMap m.step.machine.storage.registers.toMap = true ↔
      ∃ c ∈ r.registerChanges, b.register = some c.name ∧ c.old ≠ c.new := by
  obtain ⟨i, e, -, hw, hs⟩ := Machine.step_stepped ho
  obtain ⟨index, stage, hp⟩ := (m.enter.recorded i e).proceed_eq
  obtain ⟨bus, timers, hrec⟩ := m.enter.recorded_eq i e
  rw [hs, (m.proceed_recorded i e).2.1, List.getLast?_concat] at hr
  obtain rfl := Option.some.inj hr
  have hfaithful : e.Faithful m.storage :=
    Machine.work_faithful (m := m.enter) (hm.mem_names (by decide)) hw
  rw [hs, hp, hrec, sawChange_iff b hfaithful.passes.names]
  simp only [hfaithful.leads.changed_iff (Machine.registerChanges_le hw)]
  constructor
  · rintro ⟨name, hname, c, hc, rfl, hne⟩
    exact ⟨c, hc, hname, hne⟩
  · rintro ⟨c, hc, hname, hne⟩
    exact ⟨c.name, hname, c, hc, rfl, hne⟩

variable {b}

/-- After a phase was carried out, a breakpoint is met exactly if the check after the phase or the one
before the next phase finds it. -/
theorem met_iff {m : Machine τ} (hm : m.Sound) (ho : m.step.outcome = .stepped) {r : Record}
    (hr : m.step.machine.history.getLast? = some r) :
    b.Met m.step.machine r ↔
      b.meets m.storage.registers.toMap m.step.machine.storage.registers.toMap r = true ∨
        m.step.machine.nextPhase = .at .fetch ∧ b.meetsIndex m.step.machine.index = true := by
  unfold Met Holds meets meetsIndex
  cases hk : b.kind with
  | phase => simp
  | opcode => simp
  | instructionIndex => simp [and_left_comm]
  | memoryWrite => simp
  | registerValue => simp [holdsValue_iff]
  | registerChange => simp [changed_step b hm ho hr]

end Breakpoint

end PhaseMachine
