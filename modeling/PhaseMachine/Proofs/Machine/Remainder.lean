/-
The phases that an instruction has left. A step that is carried out moves the machine one place on, so the
place says which phase of which instruction comes next, and there is a record for each place passed; but a
fetch that cannot be shown is recorded and does not move on. What the rest of an instruction fails for is
plain from where it begins.
-/
import PhaseMachine.Machine.Run
import PhaseMachine.Proofs.Machine.Steps

namespace PhaseMachine

theorem Stage.number_add_left (s : Stage) : s.number + s.left = 4 := by
  cases s <;> rfl

namespace Machine

variable {τ : Type} [Quantity τ] {m : Machine τ} {n : Nat}

/-! ## Places and records -/

/-- There are as many records as the place says, but for a machine at the fetch of an instruction that
cannot be shown in assembly. Past its fetch an instruction can be shown. -/
structure Placed (m : Machine τ) : Prop where
  length : m.history.length = m.place ∨
    m.stage = .fetch ∧ ∃ i u, m.program[m.index]? = some i ∧ i.assembly = .error u
  shown : m.stage ≠ .fetch → ∃ i text, m.program[m.index]? = some i ∧ i.assembly = .ok text

omit [Quantity τ] in
theorem index_eq (m : Machine τ) : m.index = m.place / 4 ∧ m.stage.number = m.place % 4 := by
  have hnum := m.stage.number_lt
  unfold place
  omega

/-- A stage is carried out only of an instruction that can be shown. -/
theorem shown_of_stepped (ho : m.step.outcome = .stepped) :
    ∃ i text, m.program[m.index]? = some i ∧ i.assembly = .ok text := by
  rcases m.step_cases with ⟨-, ho', -⟩ | ⟨i, f, -, -, ho', -⟩ | ⟨i, e, text, hi, -, ha, -, -⟩ |
    ⟨i, e, u, -, -, -, ho', -⟩
  · rw [ho] at ho'; cases ho'
  · rw [ho] at ho'; cases ho'
  · exact ⟨i, text, hi, ha⟩
  · rw [ho] at ho'; cases ho'

/-- A machine that can carry a stage out has as many records as its place says. -/
theorem Placed.length_eq (h : m.Placed) (ho : m.step.outcome = .stepped) : m.history.length = m.place := by
  refine h.length.resolve_right fun ⟨_, j, u, hj, hu⟩ => ?_
  obtain ⟨i, text, hi, ha⟩ := shown_of_stepped ho
  rw [hi] at hj
  cases hj
  rw [ha] at hu
  cases hu

theorem Placed.step (h : m.Placed) : m.step.machine.Placed := by
  rcases m.step_cases with ⟨-, -, hs⟩ | ⟨i, f, -, -, -, hs⟩ | ⟨i, e, text, hi, -, ha, ho, hs⟩ |
    ⟨i, e, u, hi, -, ha, -, hs⟩
  · rw [hs]
    exact ⟨h.length, h.shown⟩
  · rw [hs]
    exact ⟨h.length, h.shown⟩
  · obtain ⟨hprogram, hhistory, -, -, -, hplace⟩ := m.proceed_recorded i e
    rw [hs]
    refine ⟨.inl ?_, fun hne => ⟨i, text, ?_, ha⟩⟩
    · rw [hhistory, List.length_append, List.length_singleton, hplace, h.length_eq ho]
    · -- past a fetch the machine is still in the instruction
      have hnum : (m.enter.recorded i e).proceed.stage.number ≠ 0 := mt (Stage.number_inj (t := .fetch)).1 hne
      have hbefore := m.index_eq
      have hafter := (m.enter.recorded i e).proceed.index_eq
      rw [hprogram, show (m.enter.recorded i e).proceed.index = m.index by omega]
      exact hi
  · have hs' : m.stage = .fetch := by
      by_contra hne
      obtain ⟨j, text, hj, htext⟩ := h.shown hne
      rw [hi] at hj
      cases hj
      rw [ha] at htext
      cases htext
    obtain ⟨bus, timers, hr⟩ := m.enter.recorded_eq i e
    rw [hs, hr]
    exact ⟨.inr ⟨hs', i, u, hi, ha⟩, fun hne => absurd hs' hne⟩

theorem Placed.perform (h : m.Placed) (op : Op τ) : (m.perform op).Placed := by
  by_cases hb : op.between = true
  · obtain ⟨stepDuration, bus, timers, clock, cache, he, -⟩ := m.between_eq hb
    rw [he]
    exact ⟨h.length, h.shown⟩
  · cases op with
    | load program => exact ⟨.inl rfl, fun hne => absurd rfl hne⟩
    | reset => exact ⟨.inl rfl, fun hne => absurd rfl hne⟩
    | step => exact h.step
    | _ => exact absurd rfl hb

theorem Reachable.placed (h : m.Reachable) : m.Placed := by
  induction h with
  | made h =>
    rw [(ofSetup_ok h).2.2]
    exact ⟨.inl rfl, fun hne => absurd rfl hne⟩
  | perform op _ ih => exact ih.perform op

/-! ## Phases of one instruction -/

theorem place_steps (h : ∀ k < n, (m.steps k).step.outcome = .stepped) : (m.steps n).place = m.place + n := by
  induction n with
  | zero => rfl
  | succ n ih =>
    have hbefore := ih fun k hk => h k (hk.trans n.lt_succ_self)
    rcases (m.steps n).place_step with ⟨-, hp⟩ | ⟨hno, -⟩
    · show (m.steps n).step.machine.place = _
      rw [hp, hbefore, Nat.add_assoc]
    · exact absurd (h n n.lt_succ_self) hno

/-- The machine is in the same instruction until all phases of it are carried out. -/
theorem index_steps (h : ∀ k < n, (m.steps k).step.outcome = .stepped) (hn : n < m.stage.left) :
    (m.steps n).index = m.index ∧ (m.steps n).stage.number = m.stage.number + n := by
  have hplace := place_steps h
  have hbefore := m.index_eq
  have hafter := (m.steps n).index_eq
  have hleft := m.stage.number_add_left
  omega

/-- These are the records of phases that plain steps carry out, all of one instruction. -/
structure Carries (m : Machine τ) (records : List Record) : Prop where
  stepped : ∀ k < records.length, (m.steps k).step.outcome = .stepped
  history : (m.steps records.length).history = m.history ++ records
  records : ∀ k r, records[k]? = some r →
    r.stage.number = (m.place + k) % 4 ∧ m.program[m.index]? = some r.instruction

theorem carries_nil (m : Machine τ) : m.Carries [] where
  stepped _ hk := absurd hk (Nat.not_lt_zero _)
  history := (List.append_nil _).symm
  records _ _ hk := by cases hk

/-- One more phase of the instruction. -/
theorem Carries.concat {done : List Record} {r : Record} (h : m.Carries done) (hn : done.length < m.stage.left)
    (ho : (m.steps done.length).step.outcome = .stepped)
    (hr : (m.steps done.length).step.machine.history.getLast? = some r) :
    m.Carries (done ++ [r]) ∧ r.stage.number = m.stage.number + done.length := by
  obtain ⟨hindex, hstage⟩ := index_steps h.stepped hn
  obtain ⟨i, e, hi, -, hs⟩ := step_stepped ho
  have hhistory : (m.steps done.length).step.machine.history =
      m.history ++ done ++ [(m.steps done.length).enter.entry i e] := by
    rw [hs, ((m.steps done.length).proceed_recorded i e).2.1, h.history]
  rw [hhistory, List.getLast?_concat] at hr
  obtain rfl := Option.some.inj hr
  have hlen : (done ++ [(m.steps done.length).enter.entry i e]).length = done.length + 1 := by simp
  refine ⟨⟨fun k hk => ?_, ?_, records_concat h.records ⟨?_, ?_⟩⟩, hstage⟩
  · rw [hlen] at hk
    rcases Nat.lt_succ_iff_lt_or_eq.1 hk with hk | rfl
    · exact h.stepped k hk
    · exact ho
  · rw [hlen, ← List.append_assoc]
    exact hhistory
  · show (m.steps done.length).stage.number = _
    rw [((m.steps done.length).index_eq).2, place_steps h.stepped]
  · rw [hindex, (m.steps_fixed done.length).2.2] at hi
    exact hi

/-- How many phases the current instruction has left, by the number of records; none after the end of the
program. -/
def remaining (m : Machine τ) : Nat :=
  if m.nextPhase = .idle then 0 else 4 - m.history.length % 4

theorem Placed.remaining_eq (h : m.Placed) (ho : m.step.outcome = .stepped) : m.remaining = m.stage.left := by
  have hidle : m.nextPhase ≠ .idle := fun hidle => by
    rw [(finished_iff m).2 hidle] at ho
    cases ho
  have hlen := h.length_eq ho
  have hplace := m.index_eq
  have hleft := m.stage.number_add_left
  rw [remaining, if_neg hidle]
  omega

/-- What is left of the instruction does not fail: it can be shown, and if it is still to be executed, the
execute stage gets past it. -/
def Passable (m : Machine τ) (i : Instruction) : Prop :=
  i.Shown ∧ (m.stage = .store ∨ m.Executes i)

instance (m : Machine τ) (i : Instruction) : Decidable (m.Passable i) :=
  inferInstanceAs (Decidable (_ ∧ _))

/-- As long as the phases of an instruction are carried out, the next one fails for what the instruction
and the layout of storage were at first. -/
theorem fails_steps_iff (hm : m.Sound) {i : Instruction} (hi : m.program[m.index]? = some i) (hw : i.WellTyped)
    (h : ∀ k < n, (m.steps k).step.outcome = .stepped) (hn : n < m.stage.left) :
    (∃ f, (m.steps n).step.outcome = .failed f) ↔ ¬ i.Shown ∨ m.stage.number + n = 2 ∧ ¬ m.Executes i := by
  obtain ⟨hindex, hstage⟩ := index_steps h hn
  obtain ⟨hblank, hstrict, hprogram⟩ := m.steps_fixed n
  obtain ⟨hnames, hsize⟩ := hm.layout (hm.steps n) hblank
  have hat : (m.steps n).program[(m.steps n).index]? = some i := by rw [hprogram, hindex, hi]
  have hexecute : (m.steps n).stage = .execute ↔ m.stage.number + n = 2 := by
    rw [← Stage.number_inj, hstage]
    rfl
  have hsame : (m.steps n).Executes i ↔ m.Executes i := by
    unfold Executes
    rw [hnames, hsize, hstrict]
  rw [fails_iff hat hw, hexecute, hsame]

end Machine

end PhaseMachine
