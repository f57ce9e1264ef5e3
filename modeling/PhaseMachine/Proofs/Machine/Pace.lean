/-
How the machine paces through a program. Every stage that is carried out adds one record and moves the
machine one place on, so the number of records is the place; the clock runs with them until a stage
fails, and then no record is added any more. There is one exception: an instruction that cannot be
shown in assembly is recorded with its fetch, but the machine does not go on, and fetches it again
with every step.
-/
import PhaseMachine.Proofs.Instruction.Shown
import PhaseMachine.Proofs.Machine.Stall
import Mathlib.Tactic

namespace PhaseMachine

/-! ## Places -/

/-- The number of a stage among the stages of an instruction. -/
def Stage.number : Stage → Nat
  | fetch => 0
  | decode => 1
  | execute => 2
  | store => 3

theorem Stage.number_lt (s : Stage) : s.number < 4 := by
  cases s <;> decide

theorem Stage.number_inj {s t : Stage} : s.number = t.number ↔ s = t := by
  cases s <;> cases t <;> decide

theorem Stage.getElem?_all (s : Stage) : Stage.all[s.number]? = some s := by
  cases s <;> rfl

namespace Machine

variable {τ : Type}

/-- How many phases of the program come before the next one. -/
def place (m : Machine τ) : Nat :=
  4 * m.index + m.stage.number

theorem place_proceed (m : Machine τ) : m.proceed.place = m.place + 1 := by
  unfold proceed place
  cases hs : m.stage with
  | store =>
    show 4 * (m.index + 1) + 0 = 4 * m.index + 3 + 1
    omega
  | _ => rfl

/-- The place before the execute stage of an instruction. -/
theorem place_eq_execute {m : Machine τ} {k : Nat} (h : m.place = 4 * k + 2) :
    m.index = k ∧ m.stage = .execute := by
  have hnum := m.stage.number_lt
  unfold place at h
  have hn : m.stage.number = Stage.execute.number := by
    show m.stage.number = 2
    omega
  exact ⟨by omega, Stage.number_inj.1 hn⟩

/-! ## A machine on track -/

/-- The records follow the program phase by phase and show their instructions; there are as many as
the place says, and their cycles are counted without gaps, unless the machine fails for good. -/
structure OnTrack (m : Machine τ) : Prop where
  records : ∀ k r, m.history[k]? = some r →
    r.cycle = k + 1 ∧ r.stage.number = k % 4 ∧ m.program[k / 4]? = some r.instruction ∧ r.instruction.Shown
  place : m.history.length = m.place
  fetches : m.pc = m.history.countP fun r => r.stage = .fetch
  count : m.pc = (m.history.length + 3) / 4
  ir : m.ir = if m.pc = 0 then none else m.program[m.pc - 1]?
  clock : m.cycle = m.history.length ∨ ∃ f, m.FailsWith f

variable {m : Machine τ}

/-- The records stay inside the program. -/
theorem OnTrack.length_le (h : m.OnTrack) : m.history.length ≤ 4 * m.program.length := by
  by_contra hlt
  have hpos : m.history.length - 1 < m.history.length := by omega
  obtain ⟨-, -, hi, -⟩ := h.records _ _ (List.getElem?_eq_getElem hpos)
  have := (List.getElem?_eq_some_iff.1 hi).1
  omega

/-- In the middle of an instruction, its fetch has been recorded. -/
theorem OnTrack.current (h : m.OnTrack) (hs : m.stage ≠ .fetch) :
    ∃ i, m.program[m.index]? = some i ∧ i.Shown := by
  have hnum : m.stage.number ≠ 0 := mt (Stage.number_inj (t := .fetch)).1 hs
  have hplace := h.place
  unfold Machine.place at hplace
  have hin : 4 * m.index < m.history.length := by omega
  obtain ⟨-, -, hi, hshown⟩ := h.records _ _ (List.getElem?_eq_getElem hin)
  rw [Nat.mul_div_cancel_left _ (by decide)] at hi
  exact ⟨_, hi, hshown⟩

/-- At the end of the program all its phases are recorded. -/
theorem OnTrack.finished (h : m.OnTrack) (hn : m.program[m.index]? = none) :
    m.history.length = 4 * m.program.length := by
  have hle := h.length_le
  have hplace := h.place
  have hend := List.getElem?_eq_none_iff.1 hn
  unfold Machine.place at hplace
  omega

/-- What holds of all records of a history and of one more holds of the longer history. -/
theorem records_concat {α : Type} {P : Nat → α → Prop} {history : List α} {last : α}
    (h : ∀ k r, history[k]? = some r → P k r) (hlast : P history.length last) :
    ∀ k r, (history ++ [last])[k]? = some r → P k r := by
  intro k r hk
  rcases Nat.lt_trichotomy k history.length with hlt | rfl | hgt
  · rw [List.getElem?_append_left hlt] at hk
    exact h k r hk
  · rw [List.getElem?_concat_length] at hk
    cases hk
    exact hlast
  · rw [List.getElem?_eq_none (by rw [List.length_append, List.length_singleton]; omega)] at hk
    cases hk

variable [Quantity τ]

/-- What a stage that is carried out makes of the machine. -/
theorem proceed_recorded (m : Machine τ) (i : Instruction) (e : Effect) :
    (m.enter.recorded i e).proceed.program = m.program ∧
    (m.enter.recorded i e).proceed.history = m.history ++ [m.enter.entry i e] ∧
    (m.enter.recorded i e).proceed.cycle = m.cycle + 1 ∧
    (m.enter.recorded i e).proceed.pc = m.pcAfter ∧
    (m.enter.recorded i e).proceed.ir = m.irAfter i ∧
    (m.enter.recorded i e).proceed.place = m.place + 1 := by
  have hplace := (m.enter.recorded i e).place_proceed
  obtain ⟨bus, timers, hr⟩ := m.enter.recorded_eq i e
  obtain ⟨index, stage, hp⟩ := (m.enter.recorded i e).proceed_eq
  rw [hplace, hp, hr]
  exact ⟨rfl, rfl, rfl, rfl, rfl, rfl⟩

/-- A step that carries a stage out moves the machine one place on, and no other one moves it. -/
theorem place_step (m : Machine τ) :
    (m.step.outcome = .stepped ∧ m.step.machine.place = m.place + 1) ∨
      (m.step.outcome ≠ .stepped ∧ m.step.machine.place = m.place) := by
  rcases m.step_cases with ⟨-, ho, hs⟩ | ⟨i, f, -, -, ho, hs⟩ | ⟨i, e, text, -, -, -, ho, hs⟩ |
    ⟨i, e, u, -, -, -, ho, hs⟩
  · rw [hs, ho]
    exact .inr ⟨by simp, rfl⟩
  · rw [hs, ho]
    exact .inr ⟨by simp, rfl⟩
  · rw [hs]
    exact .inl ⟨ho, (m.proceed_recorded i e).2.2.2.2.2⟩
  · obtain ⟨bus, timers, hr⟩ := m.enter.recorded_eq i e
    rw [hs, hr, ho]
    exact .inr ⟨by simp, rfl⟩

/-- A machine on track that carries a stage out, and can show the instruction, stays on track. -/
theorem OnTrack.proceed (h : m.OnTrack) (hc : m.cycle = m.history.length) {i : Instruction}
    (hi : m.program[m.index]? = some i) (hshown : i.Shown) (e : Effect) :
    ((m.enter.recorded i e).proceed).OnTrack := by
  obtain ⟨hprogram, hhistory, hcycle, hpc, hir, hplace⟩ := m.proceed_recorded i e
  have hlen : (m.enter.recorded i e).proceed.history.length = m.history.length + 1 := by
    rw [hhistory, List.length_append, List.length_singleton]
  have hat := h.place
  have hnum := m.stage.number_lt
  have hcount := h.count
  have hfetch : m.stage = .fetch ↔ m.stage.number = 0 := (Stage.number_inj (t := .fetch)).symm
  unfold Machine.place at hat
  refine ⟨?_, ?_, ?_, ?_, ?_, ?_⟩
  · rw [hhistory, hprogram]
    refine records_concat h.records ⟨?_, ?_, ?_, hshown⟩
    · show m.cycle + 1 = _
      rw [hc]
    · show m.stage.number = _
      omega
    · rw [show m.history.length / 4 = m.index by omega]
      exact hi
  · rw [hlen, hplace, h.place]
  · rw [hhistory, hpc, List.countP_append, List.countP_singleton, ← h.fetches]
    show m.pcAfter = m.pc + if decide (m.stage = .fetch) then 1 else 0
    unfold pcAfter
    by_cases hs : m.stage = .fetch
    · simp [hs]
    · simp [hs]
  · rw [hlen, hpc]
    unfold pcAfter
    split
    · next hs =>
      have := hfetch.1 hs
      omega
    · next hs =>
      have := mt hfetch.2 hs
      omega
  · rw [hir, hpc, hprogram]
    unfold irAfter pcAfter
    by_cases hs : m.stage = .fetch
    · have hn := hfetch.1 hs
      rw [if_pos hs, if_pos hs, if_neg (Nat.succ_ne_zero _), Nat.add_sub_cancel,
        show m.pc = m.index by omega]
      exact hi.symm
    · rw [if_neg hs, if_neg hs]
      exact h.ir
  · rw [hlen, hcycle, hc]
    exact .inl rfl

/-! ## A machine that jams -/

/-- The machine is at the fetch of an instruction that cannot be shown, and has recorded that fetch
already; the record after it, if there is one, is of a fetch too. -/
structure Jammed (m : Machine τ) : Prop where
  stage : m.stage = .fetch
  current : ∃ i, m.program[m.index]? = some i ∧ ¬ i.Shown
  recorded : ∃ r ∈ m.history, ¬ r.instruction.Shown
  late : 4 * m.index < m.history.length
  again : ∀ r, m.history[4 * m.index + 1]? = some r → r.stage = .fetch

omit [Quantity τ] in
/-- At a fetch there is always work. -/
theorem work_fetch (hs : m.stage = .fetch) (i : Instruction) : ∃ e, m.enter.work i = .ok e := by
  have hstage : m.enter.stage = .fetch := hs
  unfold work
  rw [hstage]
  exact ⟨_, rfl⟩

/-- A jammed machine fails with every step, and stays jammed. -/
theorem Jammed.step (h : m.Jammed) (hp : ∀ i ∈ m.program, i.WellTyped) :
    (∃ u, m.step.outcome = .failed (.misuse u)) ∧ m.step.machine.Jammed := by
  obtain ⟨i, hi, hshown⟩ := h.current
  obtain ⟨e, hw⟩ := work_fetch h.stage i
  rcases step_of_ok hi hw with ⟨text, ha, -⟩ | ⟨u, -, ho, hs⟩
  · exact absurd ((Instruction.assembly_ok_iff (hp i (List.mem_of_getElem? hi))).1 ⟨text, ha⟩) hshown
  · obtain ⟨bus, timers, hr⟩ := m.enter.recorded_eq i e
    refine ⟨⟨_, ho⟩, ?_⟩
    rw [hs, hr]
    refine ⟨h.stage, ⟨i, hi, hshown⟩, ?_, ?_, fun r hr => ?_⟩
    · obtain ⟨r, hr, hn⟩ := h.recorded
      exact ⟨r, List.mem_append_left _ hr, hn⟩
    · show _ < (m.history ++ [m.enter.entry i e]).length
      rw [List.length_append]
      exact h.late.trans_le (Nat.le_add_right ..)
    · refine records_concat (P := fun k r => k = 4 * m.index + 1 → r.stage = .fetch) ?_ ?_ _ r hr rfl
      · rintro k r hk rfl
        exact h.again r hk
      · rintro -
        exact h.stage

/-- A machine on track that cannot show its instruction jams. -/
theorem OnTrack.jam (h : m.OnTrack) {i : Instruction} (hi : m.program[m.index]? = some i) (hshown : ¬ i.Shown)
    (e : Effect) : (m.enter.recorded i e).Jammed := by
  have hs : m.stage = .fetch := by
    by_contra hs
    obtain ⟨j, hj, hshown'⟩ := h.current hs
    rw [hi] at hj
    cases hj
    exact hshown hshown'
  have hlen : m.history.length = 4 * m.index := by
    rw [h.place, Machine.place, hs]
    rfl
  obtain ⟨bus, timers, hr⟩ := m.enter.recorded_eq i e
  rw [hr]
  refine ⟨hs, ⟨i, hi, hshown⟩, ⟨_, List.mem_append_right _ (List.mem_singleton_self _), hshown⟩, ?_,
    fun r hr => ?_⟩
  · show _ < (m.history ++ [m.enter.entry i e]).length
    rw [List.length_append, hlen]
    exact Nat.lt_succ_self _
  · have hnone : (m.history ++ [m.enter.entry i e])[4 * m.index + 1]? = none := by
      rw [List.getElem?_eq_none]
      rw [List.length_append, hlen]
      exact le_refl _
    exact absurd (hr.symm.trans hnone) (by simp)

/-! ## One step -/

/-- A step of a machine on track finds the program over and all recorded, fails and leaves the records
as they are, carries the next phase out, or jams. -/
theorem OnTrack.step (h : m.OnTrack) (hp : ∀ i ∈ m.program, i.WellTyped) :
    (m.step.outcome = .finished ∧ m.history.length = 4 * m.program.length ∧ m.step.machine.OnTrack ∧
      m.step.machine.history.length = m.history.length) ∨
    (m.step.outcome = .stepped ∧ m.history.length < 4 * m.program.length ∧ m.step.machine.OnTrack ∧
      m.step.machine.history.length = m.history.length + 1) ∨
    ∃ f, m.step.outcome = .failed f ∧ (m.step.machine.OnTrack ∨ m.step.machine.Jammed) := by
  rcases m.step_cases with ⟨hi, ho, hs⟩ | ⟨i, f, hi, hw, ho, hs⟩ | ⟨i, e, text, hi, hw, ha, ho, hs⟩ |
    ⟨i, e, u, hi, hw, ha, ho, hs⟩
  · rw [hs]
    exact .inl ⟨ho, h.finished hi, { h with }, rfl⟩
  · -- what fails, fails for good, so the clock may run away from the records
    rw [hs]
    exact .inr (.inr ⟨f, ho, .inl { h with clock := .inr ⟨f, (failsWith_of_work hi hw).enter⟩ }⟩)
  · have hshown := (Instruction.assembly_ok_iff (hp i (List.mem_of_getElem? hi))).1 ⟨text, ha⟩
    have hc : m.cycle = m.history.length := by
      rcases h.clock with hc | ⟨f, hf⟩
      · exact hc
      · rw [hf.step.1] at ho
        cases ho
    have hin := (List.getElem?_eq_some_iff.1 hi).1
    have hat := h.place
    have hnum := m.stage.number_lt
    unfold Machine.place at hat
    rw [hs]
    refine .inr (.inl ⟨ho, by omega, h.proceed hc hi hshown e, ?_⟩)
    rw [(m.proceed_recorded i e).2.1, List.length_append, List.length_singleton]
  · have hshown : ¬ i.Shown := by
      intro hshown
      obtain ⟨text, ht⟩ := (Instruction.assembly_ok_iff (hp i (List.mem_of_getElem? hi))).2 hshown
      rw [ha] at ht
      cases ht
    rw [hs]
    exact .inr (.inr ⟨_, ho, .inr (h.jam hi hshown e)⟩)

/-! ## Every run -/

omit [Quantity τ] in
theorem onTrack_load (m : Machine τ) (program : Program) : (m.load program).OnTrack := by
  have hcount : 0 = (0 + 3) / 4 := by decide
  refine ⟨fun k r hk => ?_, rfl, rfl, hcount, rfl, .inl rfl⟩
  cases hk

theorem OnTrack.between (h : m.OnTrack) {op : Op τ} (hb : op.between = true) :
    (m.perform op).OnTrack ∧ (m.perform op).history = m.history := by
  obtain ⟨stepDuration, bus, timers, clock, cache, he, -⟩ := m.between_eq hb
  rw [he]
  exact ⟨{ h with }, rfl⟩

theorem Jammed.between (h : m.Jammed) {op : Op τ} (hb : op.between = true) : (m.perform op).Jammed := by
  obtain ⟨stepDuration, bus, timers, clock, cache, he, -⟩ := m.between_eq hb
  rw [he]
  exact { h with }

theorem program_after {ops : List (Op τ)} (m : Machine τ) (ho : ∀ op ∈ ops, op.restarts = false) :
    (m.after ops).program = m.program :=
  after_of_perform (P := fun n => n.program = m.program)
    (fun n _ hn hop => (n.program_perform hop).trans hn) rfl ho

/-- Until the history starts over, the machine is on track or jammed. -/
theorem paced_perform (h : m.OnTrack ∨ m.Jammed) (hp : ∀ i ∈ m.program, i.WellTyped) {op : Op τ}
    (ho : op.restarts = false) : (m.perform op).OnTrack ∨ (m.perform op).Jammed := by
  rcases Op.step_or_between ho with rfl | hb
  · rcases h with h | h
    · rcases h.step hp with ⟨-, -, hnext, -⟩ | ⟨-, -, hnext, -⟩ | ⟨f, -, hnext⟩
      · exact .inl hnext
      · exact .inl hnext
      · exact hnext
    · exact .inr (h.step hp).2
  · rcases h with h | h
    · exact .inl (h.between hb).1
    · exact .inr (h.between hb)

theorem paced_after (h : m.OnTrack ∨ m.Jammed) (hp : ∀ i ∈ m.program, i.WellTyped) {ops : List (Op τ)}
    (ho : ∀ op ∈ ops, op.restarts = false) : (m.after ops).OnTrack ∨ (m.after ops).Jammed := by
  refine (after_of_perform (P := fun n => (n.OnTrack ∨ n.Jammed) ∧ ∀ i ∈ n.program, i.WellTyped)
    (fun n op hn hop => ⟨paced_perform hn.1 hn.2 hop, ?_⟩) ⟨h, hp⟩ ho).1
  rw [n.program_perform hop]
  exact hn.2

end Machine

end PhaseMachine
