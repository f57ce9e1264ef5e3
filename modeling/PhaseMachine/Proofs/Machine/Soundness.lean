/-
What holds of storage in every life of a machine: it keeps the layout it was made with, and its cache
stays coherent with memory through every load, step, reset and timer. The work of each stage is
faithful, a machine as it is made is blank, and no operation brings storage to anything but the blank
one or one that the work of a stage or a change for display leads to.
-/
import PhaseMachine.Proofs.Execution.Effect
import PhaseMachine.Proofs.Machine.Life

namespace PhaseMachine.Machine

variable {τ : Type}

/-! ## Blank storage -/

/-- The parts of blank storage are made one by one. -/
theorem Setup.blank_ok {s : Setup τ} {b : Storage} (h : s.blank = .ok b) :
    RegisterBank.ofSpecs s.registers = .ok b.registers ∧ Memory.ofSize? s.memorySize = some b.memory ∧
      Cache.Hierarchy.ofSizes s.cacheSizes s.demoteVictims = .ok b.cache := by
  obtain ⟨registers, hr, h⟩ := bind_ok h
  dsimp only at h
  split at h
  · next memory hm =>
    obtain ⟨memory', he, h⟩ := bind_ok h
    cases he
    obtain ⟨cache, hc, h⟩ := bind_ok h
    cases h
    exact ⟨mapError_ok hr, hm, mapError_ok hc⟩
  · cases h

/-- The cache of blank storage has lines, none of them valid, and demotes victims as the setup says. -/
theorem Setup.blank_cache {s : Setup τ} {b : Storage} (h : s.blank = .ok b) :
    b.cache.Roomy ∧ b.cache.valid = [] ∧ b.cache.demoteVictims = s.demoteVictims := by
  obtain ⟨-, -, hc⟩ := Setup.blank_ok h
  exact Cache.Hierarchy.roomy_of_sizes hc

/-- The registers of blank storage are those of the setup, in order. -/
theorem Setup.blank_names {s : Setup τ} {b : Storage} (h : s.blank = .ok b) :
    b.registers.names = s.registers.map (·.1) := by
  obtain ⟨hr, -, -⟩ := Setup.blank_ok h
  unfold RegisterBank.ofSpecs at hr
  dsimp only at hr
  split at hr
  · have hr := Except.ok.inj hr
    unfold RegisterBank.names
    rw [← hr, List.map_map]
    rfl
  · cases hr

/-! ## Sound machines -/

/-- The layout that a machine is made with, an empty cache in it, and storage that came of it. -/
structure Sound (m : Machine τ) : Prop where
  control : ∀ name ∈ RegisterBank.controlNames, name ∈ m.blank.values.names
  roomy : m.blank.cache.Roomy
  empty : m.blank.cache.valid = []
  passes : m.blank.Passes m.storage

theorem Sound.coherent_storage {m : Machine τ} (h : m.Sound) : m.storage.Coherent :=
  h.passes.coherent h.roomy (Cache.Coherent.of_valid_eq_nil h.empty)

theorem Sound.roomy_storage {m : Machine τ} (h : m.Sound) : m.storage.cache.Roomy :=
  h.passes.shape.roomy h.roomy

theorem Sound.mem_names {m : Machine τ} (h : m.Sound) {name : String}
    (hn : name ∈ RegisterBank.controlNames) : name ∈ m.storage.registers.names := by
  rw [← Storage.names_values, h.passes.names]
  exact h.control name hn

/-- Sound machines of one blank storage have the same registers and the same size of memory. -/
theorem Sound.layout {m n : Machine τ} (hm : m.Sound) (hn : n.Sound) (hb : n.blank = m.blank) :
    n.storage.registers.names = m.storage.registers.names ∧ n.storage.memory.size = m.storage.memory.size := by
  have hpm := hm.passes
  have hpn := hn.passes
  rw [hb] at hpn
  constructor
  · rw [← Storage.names_values, ← Storage.names_values, hpn.names, hpm.names]
  · rw [← Memory.length_values, ← Memory.length_values]
    exact hpn.size.trans hpm.size.symm

/-! ## The work of a stage -/

theorem work_faithful {m : Machine τ} (hpc : "PC" ∈ m.storage.registers.names) {i : Instruction}
    {e : Effect} (h : m.work i = .ok e) : e.Faithful m.storage := by
  unfold work at h
  split at h
  · cases h
    refine ⟨m.storage.passes_write _ _, ?_⟩
    obtain ⟨r, hr⟩ := Option.isSome_iff_exists.1 ((m.storage.registers.isSome_find? "PC").2 hpc)
    have hval : m.storage.registers.value? "PC" = some r.value := by
      unfold RegisterBank.value?
      rw [hr]
      rfl
    show Change.Leads m.storage.values
      [.register ⟨"PC", (m.storage.registers.value? "PC").getD 0, ↑(m.pc + 1)⟩] _
    rw [Storage.values_write, hval]
    exact Change.leads_register ((m.storage.register?_values "PC").trans hval)
  · cases h
    have hs := m.storage.still_of_values (m := m.storage.memory)
      (RegisterBank.toMap_setActive m.storage.registers "IR" true) rfl
    exact ⟨hs.passes, hs.values ▸ .refl _⟩
  · cases ha : i.attempt m.strict m.storage m.cycle with
    | error f => rw [ha] at h; cases h
    | ok a =>
      rw [ha] at h
      cases h
      cases a with
      | done e => exact Instruction.execute_faithful (Instruction.attempt_done ha)
      | skipped x => exact ⟨.refl _, .refl _⟩
  · cases h
    have hs := m.storage.still_of_values m.storage.registers.toMap_deactivateGeneral
      m.storage.memory.values_deactivateAll
    exact ⟨hs.passes, hs.values ▸ .refl _⟩

theorem still_load (m : Machine τ) (program : Program) : m.storage.Still (m.load program).storage :=
  m.storage.still_of_values (by rw [RegisterBank.toMap_setActive, RegisterBank.toMap_setActive])
    m.storage.memory.values_clearFlags

/-! ## Machines as they are made -/

variable [Quantity τ]

/-- A machine as it is made holds nothing but its blank storage. -/
theorem ofSetup_ok {s : Setup τ} {clock : τ} {m : Machine τ} (h : ofSetup s clock = .ok m) :
    s.missing? = none ∧ s.blank = .ok m.blank ∧
      m = {
        blank := m.blank, strict := s.strict, stepDuration := s.stepDuration, storage := m.blank
        bus := { lifetime := BusLog.lifetimeFor s.stepDuration }, clock } := by
  unfold ofSetup at h
  split at h
  · cases h
  · next hm =>
    split at h
    · cases h
    · cases hb : s.blank with
      | error e => rw [hb] at h; cases h
      | ok b =>
        rw [hb] at h
        cases h
        exact ⟨hm, rfl, rfl⟩

theorem storage_of_setup {s : Setup τ} {clock : τ} {m : Machine τ} (h : ofSetup s clock = .ok m) :
    m.storage = m.blank := by
  rw [(ofSetup_ok h).2.2]

theorem sound_of_setup {s : Setup τ} {clock : τ} {m : Machine τ} (h : ofSetup s clock = .ok m) : m.Sound := by
  obtain ⟨hm, hb, -⟩ := ofSetup_ok h
  obtain ⟨hr, hv, -⟩ := Setup.blank_cache hb
  refine ⟨fun name hn => ?_, hr, hv, ?_⟩
  · rw [Storage.names_values, Setup.blank_names hb]
    have := List.find?_eq_none.1 hm name hn
    simpa using this
  · rw [storage_of_setup h]
    exact .refl _

/-! ## Operations -/

/-- A step leaves storage and history as they are, or does the work of a stage and records it. -/
theorem step_effect (m : Machine τ) :
    (m.step.machine.storage = m.storage ∧ m.step.machine.history = m.history) ∨
      ∃ i e, m.program[m.index]? = some i ∧ m.enter.work i = .ok e ∧ m.step.machine.storage = e.storage ∧
        m.step.machine.history = m.history ++ [m.enter.entry i e] := by
  rcases m.step_machine with ⟨-, h⟩ | ⟨i, f, -, -, h⟩ | ⟨i, e, index, stage, bus, timers, hi, hw, h⟩
  · exact .inl (by rw [h]; exact ⟨rfl, rfl⟩)
  · exact .inl (by rw [h]; exact ⟨rfl, rfl⟩)
  · exact .inr ⟨i, e, hi, hw, by rw [h], by rw [h]⟩

theorem passes_step {m : Machine τ} (hpc : "PC" ∈ m.storage.registers.names) :
    m.storage.Passes m.step.machine.storage := by
  rcases m.step_effect with ⟨h, -⟩ | ⟨i, e, -, hw, h, -⟩
  · rw [h]
    exact .refl _
  · rw [h]
    exact (work_faithful (m := m.enter) hpc hw).passes

theorem Sound.perform {m : Machine τ} (h : m.Sound) (op : Op τ) : (m.perform op).Sound := by
  have hb := m.blank_perform op
  refine ⟨hb ▸ h.control, hb ▸ h.roomy, hb ▸ h.empty, ?_⟩
  rw [hb]
  by_cases hbetween : op.between = true
  · exact h.passes.trans (m.still_between hbetween).passes
  · cases op with
    | load program => exact h.passes.trans (m.still_load program).passes
    | reset => exact .refl _
    | step => exact h.passes.trans (passes_step (h.mem_names (by decide)))
    | _ => exact absurd rfl hbetween

/-- Every machine that comes of a setup is sound. -/
theorem Reachable.sound {m : Machine τ} (h : Reachable m) : m.Sound := by
  induction h with
  | made h => exact sound_of_setup h
  | perform op _ ih => exact ih.perform op

end PhaseMachine.Machine
