/-
The flags of memory tell what a run did. A cell is used exactly if a load or a store that lacked nothing
reached it since the history last started over, and active exactly from a store to it until the store stage
of that instruction.
-/
import PhaseMachine.Proofs.Execution.Complete
import PhaseMachine.Proofs.Machine.Steps
import PhaseMachine.Proofs.Machine.Visits

namespace PhaseMachine

/-! ## Flags of cells -/

namespace Memory

/-- There is a cell at the address, and it is used. -/
def Used (m : Memory) (address : Int) : Prop :=
  (m.find? address).any (·.used) = true

/-- There is a cell at the address, and it is active. -/
def Active (m : Memory) (address : Int) : Prop :=
  (m.find? address).any (·.active) = true

variable {m : Memory} {a b : Int}

theorem used_markRead : (m.markRead b).Used a ↔ m.Used a ∨ b = a ∧ (m.find? a).isSome := by
  unfold Used markRead
  rw [find?_modify]
  split <;> cases m.find? a <;> simp [*]

theorem active_markRead : (m.markRead b).Active a ↔ m.Active a := by
  unfold Active markRead
  rw [find?_modify]
  split <;> cases m.find? a <;> simp

theorem used_store {value : Int} : (m.store b value).Used a ↔ m.Used a ∨ b = a ∧ (m.find? a).isSome := by
  unfold Used store
  rw [find?_modify]
  split <;> cases m.find? a <;> simp [*]

theorem active_store {value : Int} :
    (m.store b value).Active a ↔ m.Active a ∨ b = a ∧ (m.find? a).isSome := by
  unfold Active store
  rw [find?_modify]
  split <;> cases m.find? a <;> simp [*]

theorem used_deactivateAll : m.deactivateAll.Used a ↔ m.Used a := by
  unfold Used deactivateAll
  rw [find?_mapCells]
  cases m.find? a <;> simp

theorem not_active_deactivateAll : ¬ m.deactivateAll.Active a := by
  unfold Active deactivateAll
  rw [find?_mapCells]
  cases m.find? a <;> simp

theorem not_used_clearFlags : ¬ m.clearFlags.Used a := by
  unfold Used clearFlags
  rw [find?_mapCells]
  cases m.find? a <;> simp

theorem not_active_clearFlags : ¬ m.clearFlags.Active a := by
  unfold Active clearFlags
  rw [find?_mapCells]
  cases m.find? a <;> simp

/-- A memory as it is made has no flags. -/
theorem plain_of_size {size : Int} {asFlag : Bool} (h : ofSize? size asFlag = some m) :
    ¬ m.Used a ∧ ¬ m.Active a := by
  unfold ofSize? at h
  split at h
  · obtain rfl := Option.some.inj h
    unfold Used Active find?
    split
    · rw [Array.getElem?_replicate]
      split <;> simp
    · simp
  · cases h

theorem mem_usedAddresses {n : Nat} : n ∈ m.usedAddresses ↔ m.Used n := by
  unfold usedAddresses Used
  rw [List.mem_filter, List.mem_range, and_iff_right_iff_imp]
  intro h
  have hsome : (m.find? n).isSome := by
    cases hf : m.find? n with
    | none => rw [hf] at h; cases h
    | some c => rfl
  exact Int.ofNat_lt.1 ((m.isSome_find? n).1 hsome).2

/-- Each used address is listed once, the lower ones first. -/
theorem pairwise_usedAddresses : m.usedAddresses.Pairwise (· < ·) :=
  List.pairwise_lt_range.filter _

end Memory

/-! ## Cells of instructions -/

namespace Instruction

/-- The address of an instruction. A truth value counts as 0 or 1. -/
def address? (i : Instruction) : Option Int :=
  match i.address with
  | .given a => some a
  | .foreign (.bool b) => some b.toNat
  | _ => none

/-- The address of an instruction, if it is inside memory. -/
def inside? (i : Instruction) (size : Nat) : Option Int :=
  i.address?.filter fun a => 0 ≤ a ∧ a < (size : Int)

/-- The address inside memory of an instruction whose destination is one of the registers. -/
def cell? (i : Instruction) (names : List String) (size : Nat) : Option Int :=
  if i.hasDestination names then i.inside? size else none

/-- The cell that a store reaches, unless it lacks something. -/
def stores? (i : Instruction) (names : List String) (size : Nat) : Option Int :=
  if i.opcode = .store then i.cell? names size else none

/-- The cell that a load or a store reaches, unless it lacks something. A load without an address reaches
none. -/
def touches? (i : Instruction) (names : List String) (size : Nat) : Option Int :=
  if i.opcode = .load ∨ i.opcode = .store then i.cell? names size else none

end Instruction

/-- The address that carrying the action out writes. -/
def Action.stores? : Action → Option Int
  | storeCell _ address _ => some address
  | _ => none

namespace Storage

variable (s : Storage) (i : Instruction)

theorem destination_cases :
    (i.hasDestination s.registers.names = true ∧
      ∃ r, s.namedRegister .destination i.destination = .ok r) ∨
    (i.hasDestination s.registers.names = false ∧
      ∃ w, s.namedRegister .destination i.destination = .error w) := by
  unfold Instruction.hasDestination
  cases hd : i.destination with
  | absent => exact .inr ⟨rfl, _, rfl⟩
  | foreign v => exact .inr ⟨rfl, _, rfl⟩
  | given name =>
    rcases s.namedRegister_decides .destination name with ⟨hc, h⟩ | ⟨hc, w, h⟩
    · exact .inl ⟨hc, h⟩
    · exact .inr ⟨hc, _, h⟩

theorem address_cases :
    (∃ a c, s.addressedCell i.address = .ok (a, c) ∧ i.inside? s.memory.size = some a) ∨
    ∃ w, s.addressedCell i.address = .error w ∧ i.inside? s.memory.size = none := by
  have hat : ∀ a : Int, (∃ c, s.memory.find? a = some c ∧ 0 ≤ a ∧ a < s.memory.size) ∨
      s.memory.find? a = none ∧ ¬ (0 ≤ a ∧ a < s.memory.size) := by
    intro a
    rw [← s.memory.isSome_find?]
    cases s.memory.find? a <;> simp
  unfold addressedCell Instruction.inside? Instruction.address?
  cases ha : i.address with
  | absent => exact .inr ⟨_, rfl, rfl⟩
  | given a =>
    rcases hat a with ⟨c, hc, hin⟩ | ⟨hnone, hout⟩
    · exact .inl ⟨a, c, by simp [hc], by simp [hin]⟩
    · exact .inr ⟨.flaw (.outsideMemory a), by simp [hnone], by simpa using hout⟩
  | foreign v =>
    cases v with
    | bool b =>
      rcases hat b.toNat with ⟨c, hc, hin⟩ | ⟨hnone, hout⟩
      · exact .inl ⟨b.toNat, c, by simp [hc], by simpa using hin⟩
      · exact .inr ⟨.flaw (.outsideMemory b.toNat), by simp [hnone], by simpa using hout⟩
    | _ => exact .inr ⟨_, rfl, rfl⟩

end Storage

namespace Instruction

variable {i : Instruction} {s : Storage}

theorem storeAction_cell :
    (∃ r a old, i.storeAction s = .ok (.storeCell r a old) ∧
      i.cell? s.registers.names s.memory.size = some a) ∨
    ∃ w, i.storeAction s = .error w ∧ i.cell? s.registers.names s.memory.size = none := by
  unfold storeAction cell?
  rcases s.destination_cases i with ⟨hd, r, hr⟩ | ⟨hd, w, hw⟩
  · rw [if_pos hd, hr]
    rcases s.address_cases i with ⟨a, c, hc, ha⟩ | ⟨w, hw, ha⟩
    · exact .inl ⟨r, a, c.value, by rw [hc]; rfl, ha⟩
    · exact .inr ⟨w, by rw [hw]; rfl, ha⟩
  · exact .inr ⟨w, by rw [hw]; rfl, if_neg (by rw [hd]; exact Bool.false_ne_true)⟩

/-- Without an address a load is a move. -/
theorem loadAction_cell :
    (i.address = .absent ∧ i.loadAction s = i.moveAction s ∧ i.cell? s.registers.names s.memory.size = none) ∨
    (∃ r a asFlag, i.loadAction s = .ok (.loadCell r a asFlag) ∧
      i.cell? s.registers.names s.memory.size = some a) ∨
    ∃ w, i.loadAction s = .error w ∧ i.cell? s.registers.names s.memory.size = none := by
  have haddress := s.address_cases i
  unfold loadAction cell?
  cases ha : i.address with
  | absent =>
    have hnone : i.inside? s.memory.size = none := by
      unfold inside? address?
      rw [ha]
      rfl
    exact .inl ⟨rfl, rfl, by rw [hnone, ite_self]⟩
  | _ =>
    refine .inr ?_
    rw [ha] at haddress
    dsimp only
    rcases s.destination_cases i with ⟨hd, r, hr⟩ | ⟨hd, w, hw⟩
    · rw [if_pos hd, hr]
      rcases haddress with ⟨a, c, hc, ha⟩ | ⟨w, hw, ha⟩
      · exact .inl ⟨r, a, _, by rw [hc]; rfl, ha⟩
      · exact .inr ⟨w, by rw [hw]; rfl, ha⟩
    · exact .inr ⟨w, by rw [hw]; rfl, if_neg (by rw [hd]; exact Bool.false_ne_true)⟩

/-- An instruction that asks for registers only reaches no cell. -/
theorem bind_of_registers {x : Except Fault Action}
    (h : ∀ a, x = .ok a → a.visits? = none ∧ a.stores? = none) :
    x.toOption.bind Action.visits? = none ∧ x.toOption.bind Action.stores? = none := by
  cases x with
  | error w => exact ⟨rfl, rfl⟩
  | ok a => exact h a rfl

theorem moveAction_registers : (i.moveAction s).toOption.bind Action.visits? = none ∧
    (i.moveAction s).toOption.bind Action.stores? = none := by
  refine bind_of_registers fun a h => ?_
  obtain ⟨d, -, h⟩ := bind_ok h
  obtain ⟨x, -, h⟩ := bind_ok h
  cases h
  exact ⟨rfl, rfl⟩

theorem computeAction_registers (f : Int → Int → Int) :
    (i.computeAction f s).toOption.bind Action.visits? = none ∧
      (i.computeAction f s).toOption.bind Action.stores? = none := by
  refine bind_of_registers fun a h => ?_
  obtain ⟨d, -, h⟩ := bind_ok h
  obtain ⟨x, -, h⟩ := bind_ok h
  obtain ⟨y, -, h⟩ := bind_ok h
  cases h
  exact ⟨rfl, rfl⟩

/-- What an instruction does in memory is plain from the instruction, the names of the registers and the
size of memory. -/
theorem action_cells (i : Instruction) (s : Storage) :
    (i.action s).toOption.bind Action.visits? = i.touches? s.registers.names s.memory.size ∧
    (i.action s).toOption.bind Action.stores? = i.stores? s.registers.names s.memory.size := by
  unfold action touches? stores?
  cases i.opcode with
  | load =>
    rcases loadAction_cell (i := i) (s := s) with ⟨-, h, hc⟩ | ⟨r, a, asFlag, h, hc⟩ | ⟨w, h, hc⟩
    · simpa [h, hc] using moveAction_registers
    · simp [h, hc, Except.toOption, Action.visits?, Action.stores?]
    · simp [h, hc, Except.toOption]
  | store =>
    rcases storeAction_cell (i := i) (s := s) with ⟨r, a, old, h, hc⟩ | ⟨w, h, hc⟩
    · simp [h, hc, Except.toOption, Action.visits?, Action.stores?]
    · simp [h, hc, Except.toOption]
  | mov => exact moveAction_registers
  | add => exact computeAction_registers _
  | sub => exact computeAction_registers _
  | mul => exact computeAction_registers _
  | div => exact computeAction_registers _
  | _ => exact ⟨rfl, rfl⟩

end Instruction

/-! ## Cells of a step -/

/-- What carrying the action out does to memory. -/
def Action.onMemory (memory : Memory) : Action → Memory
  | loadCell _ address _ => memory.markRead address
  | storeCell source address _ => memory.store address source.value
  | _ => memory

namespace Action

theorem memory_effect (s : Storage) (cycle : Int) (x : Action) :
    (x.effect s cycle).storage.memory = x.onMemory s.memory := by
  cases x <;> rfl

variable {s : Storage} {x : Action} {a : Int}

theorem inside_of_visits (hf : x.Found s) (h : x.visits? = some a) : (s.memory.find? a).isSome := by
  cases x with
  | loadCell r b asFlag =>
    obtain rfl := Option.some.inj h
    exact hf.2
  | storeCell r b old =>
    obtain rfl := Option.some.inj h
    have hvalue := congrArg Option.isSome hf.2
    rwa [Memory.value?, Option.isSome_map] at hvalue
  | _ => cases h

theorem used_onMemory (hf : x.Found s) :
    (x.onMemory s.memory).Used a ↔ s.memory.Used a ∨ x.visits? = some a := by
  have hin := inside_of_visits (a := a) hf
  cases x with
  | loadCell r b asFlag =>
    simp only [onMemory, visits?, Memory.used_markRead, Option.some.injEq] at hin ⊢
    exact or_congr_right (and_iff_left_of_imp hin)
  | storeCell r b old =>
    simp only [onMemory, visits?, Memory.used_store, Option.some.injEq] at hin ⊢
    exact or_congr_right (and_iff_left_of_imp hin)
  | _ => simp [onMemory, visits?]

theorem active_onMemory (hf : x.Found s) :
    (x.onMemory s.memory).Active a ↔ s.memory.Active a ∨ x.stores? = some a := by
  have hin := inside_of_visits (a := a) hf
  cases x with
  | loadCell r b asFlag => simp [onMemory, stores?, Memory.active_markRead]
  | storeCell r b old =>
    simp only [onMemory, stores?, visits?, Memory.active_store, Option.some.injEq] at hin ⊢
    exact or_congr_right (and_iff_left_of_imp hin)
  | _ => simp [onMemory, stores?]

end Action

namespace Machine

variable {τ : Type}

/-- The cell that the next step reaches: it is an execute phase, of a load or a store that lacks
nothing. -/
def touches? (m : Machine τ) : Option Int :=
  if m.nextPhase = .at .execute then
    m.program[m.index]?.bind fun i => i.touches? m.storage.registers.names m.storage.memory.size
  else none

/-- The cell that the next step writes: it is an execute phase, of a store that lacks nothing. -/
def stores? (m : Machine τ) : Option Int :=
  if m.nextPhase = .at .execute then
    m.program[m.index]?.bind fun i => i.stores? m.storage.registers.names m.storage.memory.size
  else none

variable {m : Machine τ} {i : Instruction} {a : Int}

theorem nextPhase_of_current (hi : m.program[m.index]? = some i) : m.nextPhase = .at m.stage :=
  nextPhase_of_lt (List.getElem?_eq_some_iff.1 hi).1

theorem cells_of_not_execute (h : m.nextPhase ≠ .at .execute) : m.touches? = none ∧ m.stores? = none :=
  ⟨if_neg h, if_neg h⟩

theorem execute_of_stores (h : m.stores? = some a) : m.nextPhase = .at .execute := by
  by_contra hne
  rw [(cells_of_not_execute hne).2] at h
  cases h

theorem cells_of_execute (hi : m.program[m.index]? = some i) (hs : m.stage = .execute) :
    m.touches? = (i.action m.storage).toOption.bind Action.visits? ∧
      m.stores? = (i.action m.storage).toOption.bind Action.stores? := by
  have hphase : m.nextPhase = .at .execute := by rw [nextPhase_of_current hi, hs]
  obtain ⟨hv, hw⟩ := i.action_cells m.storage
  unfold touches? stores?
  rw [if_pos hphase, if_pos hphase, hi, hv, hw]
  exact ⟨rfl, rfl⟩

/-- The action finds what it names, and reaches the cells that the next step reaches, if any. -/
def Reaches (m : Machine τ) (x : Action) : Prop :=
  x.Found m.storage ∧ x.visits? = m.touches? ∧ x.stores? = m.stores?

theorem reaches_nothing (h : m.touches? = none ∧ m.stores? = none) : m.Reaches .nothing :=
  ⟨trivial, h.1.symm, h.2.symm⟩

/-- The work of the execute stage does to memory what the instruction asks for. -/
theorem memory_work (hi : m.program[m.index]? = some i) (hs : m.stage = .execute) {e : Effect}
    (hw : m.enter.work i = .ok e) : ∃ x, m.Reaches x ∧ e.storage.memory = x.onMemory m.storage.memory := by
  have hcells := cells_of_execute hi hs
  rw [work_execute hs] at hw
  cases ha : i.action m.storage with
  | ok x =>
    rw [Instruction.attempt_of_ok ha] at hw
    obtain rfl := Except.ok.inj hw
    rw [ha] at hcells
    exact ⟨x, ⟨Instruction.action_found ha, hcells.1.symm, hcells.2.symm⟩, x.memory_effect ..⟩
  | error w =>
    rw [Instruction.attempt_of_error ha] at hw
    rw [ha] at hcells
    refine ⟨.nothing, reaches_nothing hcells, ?_⟩
    cases w with
    | misuse u => cases hw
    | flaw f =>
      rcases i.response_flaw m.strict f with ⟨-, -, hr⟩ | ⟨g, hr⟩
      · rw [hr] at hw
        obtain rfl := Except.ok.inj hw
        rfl
      · rw [hr] at hw
        cases hw

variable [Quantity τ]

/-- A step shows memory as inactive in the store phase, and else does to memory what such an action asks
for. -/
theorem memory_step (m : Machine τ) :
    (m.nextPhase = .at .store ∧ m.step.machine.storage.memory = m.storage.memory.deactivateAll) ∨
    m.nextPhase ≠ .at .store ∧ ∃ x, m.Reaches x ∧
      m.step.machine.storage.memory = x.onMemory m.storage.memory := by
  rcases m.step_machine with ⟨hi, h⟩ | ⟨i, f, hi, hw, h⟩ | ⟨i, e, index, stage, bus, timers, hi, hw, h⟩
  · have hidle := m.nextPhase_eq_idle.2 hi
    have hne : ∀ s, m.nextPhase ≠ .at s := fun s => by rw [hidle]; exact Phase.noConfusion
    exact .inr ⟨hne _, .nothing, reaches_nothing (cells_of_not_execute (hne _)), by rw [h]; rfl⟩
  · obtain ⟨hs, i', w, hi', ha, -⟩ := failsWith_of_work hi hw
    have hcells := cells_of_execute hi' hs
    rw [ha] at hcells
    refine .inr ⟨?_, .nothing, reaches_nothing hcells, by rw [h]; rfl⟩
    rw [nextPhase_of_current hi, hs]
    decide
  · have hphase := nextPhase_of_current hi
    rw [hphase, h]
    cases hs : m.stage with
    | execute => exact .inr ⟨by decide, memory_work hi hs hw⟩
    | store =>
      refine .inl ⟨rfl, ?_⟩
      unfold work at hw
      rw [show m.enter.stage = .store from hs] at hw
      cases hw
      rfl
    | _ =>
      refine .inr ⟨by decide, .nothing, reaches_nothing (cells_of_not_execute ?_), ?_⟩
      · rw [hphase, hs]
        decide
      · unfold work at hw
        rw [show m.enter.stage = _ from hs] at hw
        cases hw
        rfl

theorem used_step : m.step.machine.storage.memory.Used a ↔ m.storage.memory.Used a ∨ m.touches? = some a := by
  rcases m.memory_step with ⟨hs, h⟩ | ⟨-, x, ⟨hf, hv, -⟩, h⟩
  · have hnone := (cells_of_not_execute (m := m) (by rw [hs]; decide)).1
    rw [h, Memory.used_deactivateAll, hnone]
    simp
  · rw [h, Action.used_onMemory hf, hv]

theorem active_step : m.step.machine.storage.memory.Active a ↔
    m.nextPhase ≠ .at .store ∧ (m.storage.memory.Active a ∨ m.stores? = some a) := by
  rcases m.memory_step with ⟨hs, h⟩ | ⟨hs, x, ⟨hf, -, hw⟩, h⟩
  · rw [h]
    exact iff_of_false Memory.not_active_deactivateAll fun h => h.1 hs
  · rw [h, Action.active_onMemory hf, hw]
    exact (and_iff_right hs).symm

/-! ## Settled machines -/

/-- A machine past the fetch of an instruction can show it in assembly, so that it goes on after each stage;
and no cell is active but before the store phase. A reset leaves no flags. -/
structure Settled (m : Machine τ) : Prop where
  plain : ∀ a, ¬ m.blank.memory.Used a ∧ ¬ m.blank.memory.Active a
  shown : ∀ i, m.program[m.index]? = some i → m.stage ≠ .fetch → ∃ text, i.assembly = .ok text
  active : ∀ a, m.storage.memory.Active a → m.nextPhase = .at .store

/-- A stage that was carried out is followed by the next one of the instruction, and the last by a fetch. -/
theorem place_recorded (m : Machine τ) (i : Instruction) (e : Effect) :
    let n := (m.enter.recorded i e).proceed
    n.program = m.program ∧ (m.stage = .store ∧ n.stage = .fetch ∨
      n.index = m.index ∧ m.stage.next? = some n.stage) := by
  intro n
  have hn : n = (m.enter.recorded i e).proceed := rfl
  obtain ⟨bus, timers, hr⟩ := m.enter.recorded_eq i e
  have hstage : m.enter.stage = m.stage := rfl
  rw [hr, proceed, hstage] at hn
  split at hn
  · next stage hnext => exact hn ▸ ⟨rfl, .inr ⟨rfl, hnext⟩⟩
  · next hnext =>
    have hlast : m.stage = .store := by cases hs : m.stage <;> rw [hs] at hnext <;> first | rfl | cases hnext
    exact hn ▸ ⟨rfl, .inl ⟨hlast, rfl⟩⟩

theorem Settled.step (h : m.Settled) : m.step.machine.Settled := by
  have hplain : ∀ a, ¬ m.step.machine.blank.memory.Used a ∧ ¬ m.step.machine.blank.memory.Active a := by
    rw [show m.step.machine.blank = m.blank from m.blank_perform .step]
    exact h.plain
  rcases m.step_cases with ⟨-, -, hs⟩ | ⟨i, f, -, -, -, hs⟩ | ⟨i, e, text, hi, -, ha, -, hs⟩ |
    ⟨i, e, u, hi, -, ha, -, hs⟩
  · rw [hs]
    exact ⟨h.plain, h.shown, h.active⟩
  · rw [hs]
    exact ⟨h.plain, h.shown, h.active⟩
  · obtain ⟨hprogram, hstage⟩ := m.place_recorded i e
    rw [← hs] at hprogram hstage
    refine ⟨hplain, fun j hj hne => ?_, fun a hactive => ?_⟩
    · obtain ⟨hindex, -⟩ := hstage.resolve_left fun hfetch => hne hfetch.2
      rw [hprogram, hindex, hi] at hj
      exact ⟨text, Option.some.inj hj ▸ ha⟩
    · -- what became active in this step was stored, and what was active is before its store phase
      obtain ⟨hphase, hactive⟩ := active_step.1 hactive
      have hexec := execute_of_stores (hactive.resolve_left fun ha => hphase (h.active a ha))
      rw [nextPhase_of_current hi] at hexec
      have hexec := Phase.at.inj hexec
      obtain ⟨hindex, hnext⟩ := hstage.resolve_left fun hlast => by rw [hlast.1] at hexec; cases hexec
      rw [hexec] at hnext
      have hnow : m.step.machine.program[m.step.machine.index]? = some i := by rw [hprogram, hindex, hi]
      rw [nextPhase_of_current hnow, ← Option.some.inj hnext]
  · -- an instruction that cannot be shown is still before its fetch, where nothing becomes active
    have hfetch : m.stage = .fetch := by
      by_contra hne
      obtain ⟨text, htext⟩ := h.shown i hi hne
      rw [htext] at ha
      cases ha
    have hphase : m.nextPhase = .at .fetch := by rw [nextPhase_of_current hi, hfetch]
    obtain ⟨bus, timers, hr⟩ := m.enter.recorded_eq i e
    refine ⟨hplain, fun j _ hne => absurd (by rw [hs, hr]; exact hfetch) hne, fun a hactive => ?_⟩
    rcases (active_step.1 hactive).2 with hactive | hstores
    · rw [h.active a hactive] at hphase
      cases hphase
    · rw [execute_of_stores hstores] at hphase
      cases hphase

theorem settled_of_setup {s : Setup τ} {clock : τ} (h : ofSetup s clock = .ok m) : m.Settled := by
  obtain ⟨-, hblank, hm⟩ := ofSetup_ok h
  have hplain : ∀ a, ¬ m.blank.memory.Used a ∧ ¬ m.blank.memory.Active a := fun _ =>
    Memory.plain_of_size (Setup.blank_ok hblank).2.1
  rw [hm]
  exact ⟨hplain, fun _ _ hne => absurd rfl hne, fun a ha => absurd ha (hplain a).2⟩

theorem Settled.perform (h : m.Settled) (op : Op τ) : (m.perform op).Settled := by
  by_cases hb : op.between = true
  · obtain ⟨stepDuration, bus, timers, clock, cache, he, -⟩ := m.between_eq hb
    rw [he]
    exact ⟨h.plain, h.shown, h.active⟩
  · cases op with
    | load program =>
      exact ⟨h.plain, fun _ _ hne => absurd rfl hne, fun a ha => absurd ha Memory.not_active_clearFlags⟩
    | reset => exact ⟨h.plain, fun _ _ hne => absurd rfl hne, fun a ha => absurd ha (h.plain a).2⟩
    | step => exact h.step
    | _ => exact absurd rfl hb

theorem Settled.after (h : m.Settled) (ops : List (Op τ)) : (m.after ops).Settled :=
  after_of_perform (fun _ op hm (_ : True) => hm.perform op) h fun _ _ => trivial

/-! ## Runs -/

omit [Quantity τ] in
/-- A step among operations of which one more was done is that one, or was there before. -/
theorem split_concat {ops : List (Op τ)} {op : Op τ} {P : List (Op τ) → List (Op τ) → Prop} :
    (∃ before later, ops ++ [op] = before ++ .step :: later ∧ P before later) ↔
      (op = .step ∧ P ops []) ∨ ∃ before later, ops = before ++ .step :: later ∧ P before (later ++ [op]) := by
  constructor
  · rintro ⟨before, later, hsplit, hp⟩
    rcases List.eq_nil_or_concat' later with rfl | ⟨later, last, rfl⟩
    · obtain ⟨rfl, hop⟩ := List.append_inj' hsplit rfl
      exact .inl ⟨List.head_eq_of_cons_eq hop, hp⟩
    · rw [← List.cons_append, ← List.append_assoc] at hsplit
      obtain ⟨rfl, hop⟩ := List.append_inj' hsplit rfl
      exact .inr ⟨before, later, rfl, List.head_eq_of_cons_eq hop ▸ hp⟩
  · rintro (⟨rfl, hp⟩ | ⟨before, later, rfl, hp⟩)
    · exact ⟨ops, [], rfl, hp⟩
    · exact ⟨before, later ++ [op], by simp, hp⟩

/-- Since the history last started over, an execute phase reached the cell: it ran a load from the cell or a
store to it that lacked nothing. -/
def Touched (made : Machine τ) (ops : List (Op τ)) (a : Int) : Prop :=
  ∃ before later, ops = before ++ .step :: later ∧ (∀ op ∈ later, op.restarts = false) ∧
    (made.after before).touches? = some a

/-- No step among the operations is in an execute phase or a store phase. -/
def Quiet (m : Machine τ) (ops : List (Op τ)) : Prop :=
  ∀ first rest, ops = first ++ .step :: rest →
    (m.after first).nextPhase ≠ .at .execute ∧ (m.after first).nextPhase ≠ .at .store

/-- The latest execute phase ran a store to the cell that lacked nothing; its store phase is still to come,
and the history has not started over since. -/
def StoredLast (made : Machine τ) (ops : List (Op τ)) (a : Int) : Prop :=
  ∃ before later, ops = before ++ .step :: later ∧ (∀ op ∈ later, op.restarts = false) ∧
    (made.after before).stores? = some a ∧ (made.after before).step.machine.Quiet later

variable {made : Machine τ} {ops : List (Op τ)} {op : Op τ}

theorem after_concat (m : Machine τ) (ops : List (Op τ)) (op : Op τ) :
    m.after (ops ++ [op]) = (m.after ops).perform op :=
  List.foldl_concat ..

theorem touched_concat : made.Touched (ops ++ [op]) a ↔
    (op = .step ∧ (made.after ops).touches? = some a) ∨ (op.restarts = false ∧ made.Touched ops a) := by
  unfold Touched
  rw [split_concat]
  refine or_congr (by simp) ?_
  simp only [List.forall_mem_append, List.forall_mem_singleton]
  constructor
  · rintro ⟨before, later, hops, ⟨hlater, hop⟩, ha⟩
    exact ⟨hop, before, later, hops, hlater, ha⟩
  · rintro ⟨hop, before, later, hops, hlater, ha⟩
    exact ⟨before, later, hops, ⟨hlater, hop⟩, ha⟩

theorem quiet_nil (m : Machine τ) : m.Quiet [] := fun first rest h => by cases first <;> cases h

theorem quiet_concat {m : Machine τ} : m.Quiet (ops ++ [op]) ↔ m.Quiet ops ∧
    (op = .step → (m.after ops).nextPhase ≠ .at .execute ∧ (m.after ops).nextPhase ≠ .at .store) := by
  constructor
  · exact fun h => ⟨fun first rest hops => h first (rest ++ [op]) (by simp [hops]),
      fun hop => h ops [] (by rw [hop])⟩
  · rintro ⟨h, hlast⟩ first rest hops
    rcases split_concat (P := fun before _ => before = first).1 ⟨first, rest, hops, rfl⟩ with
      ⟨hop, rfl⟩ | ⟨before, later, hold, rfl⟩
    exacts [hlast hop, h before later hold]

theorem storedLast_concat : made.StoredLast (ops ++ [op]) a ↔
    (op = .step ∧ (made.after ops).stores? = some a) ∨ (op.restarts = false ∧
      (op = .step → (made.after ops).nextPhase ≠ .at .execute ∧ (made.after ops).nextPhase ≠ .at .store) ∧
      made.StoredLast ops a) := by
  have hafter : ∀ before later, made.after (before ++ .step :: later) =
      (made.after before).step.machine.after later := fun before later => List.foldl_append
  unfold StoredLast
  rw [split_concat]
  refine or_congr (by simp [quiet_nil]) ?_
  simp only [List.forall_mem_append, List.forall_mem_singleton, quiet_concat, ← hafter]
  constructor
  · rintro ⟨before, later, rfl, ⟨hlater, hop⟩, ha, hquiet, hlast⟩
    exact ⟨hop, hlast, before, later, rfl, hlater, ha, hquiet⟩
  · rintro ⟨hop, hlast, before, later, rfl, hlater, ha, hquiet⟩
    exact ⟨before, later, rfl, ⟨hlater, hop⟩, ha, hquiet, hlast⟩

/-! ## Flags of a run -/

/-- Starting over clears the flags, and what is done between steps leaves them. -/
theorem Settled.flags_perform (h : m.Settled) (hop : op ≠ .step) :
    ((m.perform op).storage.memory.Used a ↔ op.restarts = false ∧ m.storage.memory.Used a) ∧
      ((m.perform op).storage.memory.Active a ↔ op.restarts = false ∧ m.storage.memory.Active a) := by
  cases hr : op.restarts with
  | true =>
    have hclear : ¬ (m.perform op).storage.memory.Used a ∧ ¬ (m.perform op).storage.memory.Active a := by
      cases op with
      | load program => exact ⟨Memory.not_used_clearFlags, Memory.not_active_clearFlags⟩
      | reset => exact h.plain a
      | _ => cases hr
    simp [hclear]
  | false =>
    have hb := (Op.step_or_between hr).resolve_left hop
    obtain ⟨stepDuration, bus, timers, clock, cache, he, -⟩ := m.between_eq hb
    simp [he]

/-- What is active is before its store phase; so a step leaves active exactly what it stores itself. -/
theorem Settled.active_step_iff (h : m.Settled) : m.step.machine.storage.memory.Active a ↔
    m.stores? = some a ∨
      (m.nextPhase ≠ .at .execute ∧ m.nextPhase ≠ .at .store) ∧ m.storage.memory.Active a := by
  rw [active_step]
  constructor
  · rintro ⟨hphase, ha | ha⟩
    exacts [absurd (h.active a ha) hphase, .inl ha]
  · rintro (ha | ⟨⟨-, hphase⟩, ha⟩)
    · exact ⟨by rw [execute_of_stores ha]; decide, .inr ha⟩
    · exact absurd (h.active a ha) hphase

theorem flags_after {s : Setup τ} {clock : τ} (h : ofSetup s clock = .ok made) (ops : List (Op τ)) (a : Int) :
    ((made.after ops).storage.memory.Used a ↔ made.Touched ops a) ∧
      ((made.after ops).storage.memory.Active a ↔ made.StoredLast ops a) := by
  induction ops using List.reverseRecOn with
  | nil =>
    have hclear := (settled_of_setup h).plain a
    rw [← storage_of_setup h] at hclear
    have hnone : ∀ (before later : List (Op τ)), [] ≠ before ++ .step :: later := by simp
    exact ⟨iff_of_false hclear.1 fun ⟨before, later, hops, _⟩ => hnone before later hops,
      iff_of_false hclear.2 fun ⟨before, later, hops, _⟩ => hnone before later hops⟩
  | append_singleton ops op ih =>
    have hsettled := (settled_of_setup h).after ops
    rw [after_concat, touched_concat, storedLast_concat, ← ih.1, ← ih.2]
    by_cases hop : op = .step
    · subst hop
      simp only [true_and, Op.restarts, forall_const]
      exact ⟨used_step.trans or_comm, hsettled.active_step_iff⟩
    · simpa [hop] using hsettled.flags_perform hop

/-- In every state that a machine comes to, by any operations in any order, a cell is used exactly if since
the latest load or reset an execute phase ran a store to it or a load from it that lacked nothing, and active
exactly if the latest execute phase was such a store whose store phase is still to come. The used cells are
listed by address. -/
theorem flags_exact {s : Setup τ} {clock : τ} (h : ofSetup s clock = .ok made) (ops : List (Op τ)) :
    (∀ a, (made.after ops).storage.memory.Used a ↔ made.Touched ops a) ∧
    (∀ a, (made.after ops).storage.memory.Active a ↔ made.StoredLast ops a) ∧
    (∀ n : Nat, n ∈ (made.after ops).storage.memory.usedAddresses ↔ made.Touched ops n) ∧
    (made.after ops).storage.memory.usedAddresses.Pairwise (· < ·) :=
  ⟨fun a => (flags_after h ops a).1, fun a => (flags_after h ops a).2,
    fun n => Memory.mem_usedAddresses.trans (flags_after h ops n).1, Memory.pairwise_usedAddresses⟩

/-- Seven steps: the second of two instructions is a store, and its store phase comes next. -/
def storingRun : List (Op Rat) :=
  .load [{ opcode := .mov, operand1 := some (.literal 7), destination := .given "R1" },
      { opcode := .store, destination := .given "R1", address := .given 2 }]
    :: List.replicate 7 .step

theorem flags_exact_storing :
    ((small false false).after storingRun).storage.memory.Used 2 ∧
      ((small false false).after storingRun).storage.memory.Active 2 := by
  obtain ⟨hused, hactive, -, -⟩ := flags_exact (ofSetup_small false false) storingRun
  have htouches : ((small false false).after (storingRun.take 7)).touches? = some 2 := by decide +kernel
  have hstores : ((small false false).after (storingRun.take 7)).stores? = some 2 := by decide +kernel
  exact ⟨(hused 2).2 ⟨storingRun.take 7, [], rfl, by simp, htouches⟩,
    (hactive 2).2 ⟨storingRun.take 7, [], rfl, by simp, hstores, quiet_nil _⟩⟩

end Machine

end PhaseMachine
