/-
Plain steps, with nothing done in between. A step that carries a stage out adds one record, so a number
of such steps is read off the history. A program with nothing to fail at, whose instructions can all be
shown and either find what they ask for or may be passed over, never fails; and only such a program runs
through to its end.
-/
import PhaseMachine.Proofs.Execution.Complete
import PhaseMachine.Proofs.Machine.Soundness
import PhaseMachine.Proofs.Machine.Trace

namespace PhaseMachine.Machine

variable {τ : Type}

/-! ## The end of the program -/

theorem nextPhase_eq_idle (m : Machine τ) : m.nextPhase = .idle ↔ m.program[m.index]? = none := by
  rw [List.getElem?_eq_none_iff]
  constructor
  · intro hidle
    by_contra hlt
    rw [nextPhase_of_lt (by omega)] at hidle
    cases hidle
  · exact nextPhase_of_le

variable [Quantity τ]

theorem finished_iff (m : Machine τ) : m.step.outcome = .finished ↔ m.nextPhase = .idle := by
  rw [nextPhase_eq_idle]
  refine ⟨fun ho => ?_, fun hi => (step_of_none hi).1⟩
  rcases m.step_cases with ⟨hi, -⟩ | ⟨i, f, -, -, ho', -⟩ | ⟨i, e, text, -, -, -, ho', -⟩ |
    ⟨i, e, u, -, -, -, ho', -⟩
  · exact hi
  · rw [ho] at ho'; cases ho'
  · rw [ho] at ho'; cases ho'
  · rw [ho] at ho'; cases ho'

/-- A step that carries a stage out does the work of its instruction, records it and goes on. -/
theorem step_stepped {m : Machine τ} (h : m.step.outcome = .stepped) :
    ∃ i e, m.program[m.index]? = some i ∧ m.enter.work i = .ok e ∧
      m.step.machine = (m.enter.recorded i e).proceed := by
  rcases m.step_cases with ⟨-, ho, -⟩ | ⟨i, f, -, -, ho, -⟩ | ⟨i, e, text, hi, hw, -, -, hs⟩ |
    ⟨i, e, u, -, -, -, ho, -⟩
  · rw [h] at ho; cases ho
  · rw [h] at ho; cases ho
  · exact ⟨i, e, hi, hw, hs⟩
  · rw [h] at ho; cases ho

/-! ## Steps in a row -/

/-- The machine after a number of steps. -/
def steps (m : Machine τ) : Nat → Machine τ
  | 0 => m
  | n + 1 => (m.steps n).step.machine

theorem steps_eq_after (m : Machine τ) (n : Nat) : m.steps n = m.after (List.replicate n .step) := by
  induction n with
  | zero => rfl
  | succ n ih =>
    unfold Machine.steps after
    rw [List.replicate_succ', List.foldl_append, ih]
    rfl

omit [Quantity τ] in
theorem not_restarts_of_mem {n : Nat} {op : Op τ} (h : op ∈ List.replicate n .step) : op.restarts = false := by
  rw [List.eq_of_mem_replicate h]
  rfl

omit [Quantity τ] in
theorem stepCount_replicate (n : Nat) : stepCount (List.replicate n (.step : Op τ)) = n := by
  induction n with
  | zero => rfl
  | succ n ih => exact congrArg (· + 1) ih

theorem Reachable.steps {m : Machine τ} (h : Reachable m) (n : Nat) : Reachable (m.steps n) := by
  rw [steps_eq_after]
  exact h.after _

/-- A number of steps that all carry a stage out add as many records. -/
theorem history_steps {m : Machine τ} {n : Nat} (h : ∀ k < n, (m.steps k).step.outcome = .stepped) :
    ∃ records, records.length = n ∧ (m.steps n).history = m.history ++ records := by
  induction n with
  | zero => exact ⟨[], rfl, (List.append_nil _).symm⟩
  | succ n ih =>
    obtain ⟨records, hlen, hhistory⟩ := ih fun k hk => h k (hk.trans n.lt_succ_self)
    obtain ⟨i, e, -, -, hs⟩ := step_stepped (h n n.lt_succ_self)
    refine ⟨records ++ [(m.steps n).enter.entry i e], ?_, ?_⟩
    · rw [List.length_append, hlen, List.length_singleton]
    · show (m.steps n).step.machine.history = _
      rw [hs, ((m.steps n).proceed_recorded i e).2.1, hhistory, List.append_assoc]

/-! ## Programs that never fail -/

/-- No step of the machine fails: each instruction can be shown, and finds what it asks for or may be
passed over. -/
def Faultless (m : Machine τ) : Prop :=
  ∀ i ∈ m.program, i.WellTyped ∧ i.Shown ∧
    (i.isComplete m.storage.registers.names m.storage.memory.size = true ∨
      (m.strict = false ∧ i.id.isWritable = true))

variable {m : Machine τ}

/-- A program of complete instructions that can be shown never fails. -/
theorem faultless_load (hm : m.Sound) {program : Program}
    (h : ∀ i ∈ program, i.WellTyped ∧ i.Shown ∧
      i.isComplete m.storage.registers.names m.storage.memory.size = true) : (m.load program).Faultless := by
  intro i hi
  obtain ⟨hw, hshown, hc⟩ := h i hi
  obtain ⟨hnames, hsize⟩ := hm.layout (hm.perform (.load program)) rfl
  refine ⟨hw, hshown, .inl ?_⟩
  rw [show (m.load program).storage.registers.names = _ from hnames,
    show (m.load program).storage.memory.size = _ from hsize]
  exact hc

/-- The execute stage gets past an instruction: it finds what it asks for, or may pass it over. -/
def Executes (m : Machine τ) (i : Instruction) : Prop :=
  i.isComplete m.storage.registers.names m.storage.memory.size = true ∨
    (m.strict = false ∧ i.id.isWritable = true)

instance (m : Machine τ) (i : Instruction) : Decidable (m.Executes i) :=
  inferInstanceAs (Decidable (_ ∨ _))

omit [Quantity τ] in
theorem failsWith_iff {i : Instruction} (hi : m.program[m.index]? = some i) (hw : i.WellTyped) :
    (∃ f, m.FailsWith f) ↔ m.stage = .execute ∧ ¬ m.Executes i := by
  have hdecides := Instruction.action_decides (s := m.storage) hw
  constructor
  · rintro ⟨f, hs, j, w, hj, ha, hr⟩
    rw [hi] at hj
    cases hj
    refine ⟨hs, ?_⟩
    rcases hdecides with ⟨-, a, hok⟩ | ⟨hno, v, hflaw⟩
    · rw [hok] at ha; cases ha
    · rw [hflaw] at ha
      cases ha
      rintro (hyes | ⟨hsoft, hid⟩)
      · rw [hyes] at hno; cases hno
      · unfold Instruction.response at hr
        rw [hid, hsoft] at hr
        cases hr
  · rintro ⟨hs, hnot⟩
    rcases hdecides with ⟨hyes, -⟩ | ⟨-, w, ha⟩
    · exact absurd (.inl hyes) hnot
    · rcases Instruction.response_flaw i m.strict w with ⟨hsoft, hid, -⟩ | ⟨f, hr⟩
      · exact absurd (.inr ⟨hsoft, hid⟩) hnot
      · exact ⟨f, hs, i, .flaw w, hi, ha, hr⟩

/-- A step fails exactly if it cannot show its instruction, or is to execute one that it does not get past. -/
theorem fails_iff {i : Instruction} (hi : m.program[m.index]? = some i) (hw : i.WellTyped) :
    (∃ f, m.step.outcome = .failed f) ↔ ¬ i.Shown ∨ m.stage = .execute ∧ ¬ m.Executes i := by
  rw [← failsWith_iff hi hw, ← Instruction.assembly_ok_iff hw]
  constructor
  · rintro ⟨f, ho⟩
    rcases m.step_cases with ⟨-, ho', -⟩ | ⟨j, g, hj, hwork, -⟩ | ⟨j, e, text, -, -, -, ho', -⟩ |
      ⟨j, e, u, hj, -, ha, -⟩
    · rw [ho] at ho'; cases ho'
    · exact .inr ⟨g, failsWith_of_work hj hwork⟩
    · rw [ho] at ho'; cases ho'
    · rw [hi] at hj
      cases hj
      rw [ha]
      exact .inl fun ⟨_, htext⟩ => nomatch htext
  · rintro (hnot | ⟨f, hf⟩)
    · rcases m.step_cases with ⟨hend, -⟩ | ⟨j, g, -, -, ho, -⟩ | ⟨j, e, text, hj, -, ha, -⟩ |
        ⟨j, e, u, -, -, -, ho, -⟩
      · rw [hi] at hend; cases hend
      · exact ⟨g, ho⟩
      · rw [hi] at hj
        cases hj
        exact absurd ⟨text, ha⟩ hnot
      · exact ⟨_, ho⟩
    · exact ⟨f, hf.step.1⟩

theorem Faultless.step (h : m.Faultless) (f : Failure) : m.step.outcome ≠ .failed f := by
  intro hf
  cases hi : m.program[m.index]? with
  | none => rw [(step_of_none hi).1] at hf; cases hf
  | some i =>
    obtain ⟨hw, hshown, hc⟩ := h i (List.mem_of_getElem? hi)
    rcases (fails_iff hi hw).1 ⟨f, hf⟩ with hnot | ⟨-, hnot⟩
    · exact hnot hshown
    · exact hnot hc

/-- Program, strictness and the layout of storage stay, and with them what can fail. -/
theorem Faultless.perform (h : m.Faultless) (hm : m.Sound) {op : Op τ} (ho : op.restarts = false) :
    (m.perform op).Faultless := by
  obtain ⟨hnames, hsize⟩ := hm.layout (hm.perform op) (m.blank_perform op)
  unfold Faultless
  rw [m.program_perform ho, m.strict_perform op, hnames, hsize]
  exact h

theorem Faultless.after (h : m.Faultless) (hm : m.Sound) {ops : List (Op τ)}
    (ho : ∀ op ∈ ops, op.restarts = false) : (m.after ops).Faultless :=
  (after_of_perform (P := fun n => n.Faultless ∧ n.Sound)
    (fun _ op hn hop => ⟨hn.1.perform hn.2 hop, hn.2.perform op⟩) ⟨h, hm⟩ ho).1

theorem Faultless.steps (h : m.Faultless) (hm : m.Sound) (n : Nat) : (m.steps n).Faultless := by
  rw [steps_eq_after]
  exact h.after hm fun op hop => not_restarts_of_mem hop

theorem Faultless.outcomes (h : m.Faultless) (hm : m.Sound) {ops : List (Op τ)}
    (ho : ∀ op ∈ ops, op.restarts = false) (f : Failure) : .failed f ∉ m.outcomes ops := by
  induction ops generalizing m with
  | nil => exact List.not_mem_nil
  | cons op ops ih =>
    have hop := ho op (List.mem_cons_self ..)
    have hrest := ih (h.perform hm hop) (hm.perform op) fun op' hop' => ho op' (List.mem_cons_of_mem op hop')
    rcases Op.step_or_between hop with rfl | hb
    · intro hmem
      rcases List.mem_cons.1 hmem with hf | hf
      · exact h.step f hf.symm
      · exact hrest hf
    · rw [outcomes_between m hb]
      exact hrest

/-! ## Programs that run through -/

/-- Four steps for each instruction carry a phase out, and all after them find the program over. -/
def RunsThrough (m : Machine τ) : Prop :=
  ∀ n, (m.steps n).step.outcome = if n < 4 * m.program.length then .stepped else .finished

/-- In its execute stage, an instruction that lacks something is reported as malformed and changes no
storage. -/
def PassesOver (m : Machine τ) : Prop :=
  ∀ k i, m.program[k]? = some i →
    i.isComplete m.storage.registers.names m.storage.memory.size = false →
    ∃ w, .skipped (i.malformed w) ∈ (m.steps (4 * k + 2)).step.log ∧
      (m.steps (4 * k + 2)).step.machine.storage = (m.steps (4 * k + 2)).storage

/-- A sound machine before the first step of its program. -/
structure AtStart (m : Machine τ) : Prop where
  sound : m.Sound
  track : m.OnTrack
  empty : m.history = []

theorem atStart_of_setup {s : Setup τ} {clock : τ} {m : Machine τ} (h : ofSetup s clock = .ok m) :
    m.AtStart := by
  have hcount : 0 = (0 + 3) / 4 := by decide
  have hsound := sound_of_setup h
  rw [(ofSetup_ok h).2.2] at hsound ⊢
  refine ⟨hsound, ⟨fun k r hk => ?_, rfl, rfl, hcount, rfl, .inl rfl⟩, rfl⟩
  cases hk

theorem Sound.atStart_load (h : m.Sound) (program : Program) : (m.load program).AtStart :=
  ⟨h.perform (.load program), m.onTrack_load program, rfl⟩

theorem steps_fixed (m : Machine τ) (n : Nat) :
    (m.steps n).blank = m.blank ∧ (m.steps n).strict = m.strict ∧ (m.steps n).program = m.program := by
  induction n with
  | zero => exact ⟨rfl, rfl, rfl⟩
  | succ n ih =>
    obtain ⟨hblank, hstrict, hprogram⟩ := (m.steps n).perform_fixed .step
    exact ⟨hblank.trans ih.1, hstrict.trans ih.2.1, (hprogram rfl).trans ih.2.2⟩

/-- As long as no step fails there are as many records as steps, up to the end of the program. -/
theorem AtStart.steps (h : m.AtStart) (hp : ∀ i ∈ m.program, i.WellTyped) {n : Nat}
    (hf : ∀ k < n, ∀ f, (m.steps k).step.outcome ≠ .failed f) :
    (m.steps n).OnTrack ∧ (m.steps n).history.length = min n (4 * m.program.length) := by
  induction n with
  | zero => exact ⟨h.track, by rw [Nat.zero_min]; exact congrArg List.length h.empty⟩
  | succ n ih =>
    obtain ⟨htrack, hlen⟩ := ih fun k hk => hf k (hk.trans n.lt_succ_self)
    have hprogram := (m.steps_fixed n).2.2
    rcases htrack.step (hprogram ▸ hp) with ⟨-, hend, hnext, hsame⟩ | ⟨-, hlt, hnext, hmore⟩ | ⟨f, ho, -⟩
    · rw [hprogram] at hend
      refine ⟨hnext, hsame.trans ?_⟩
      omega
    · rw [hprogram] at hlt
      refine ⟨hnext, hmore.trans ?_⟩
      omega
    · exact absurd ho (hf n n.lt_succ_self f)

theorem RunsThrough.not_failed (h : m.RunsThrough) (n : Nat) (f : Failure) :
    (m.steps n).step.outcome ≠ .failed f := by
  rw [h n]
  split <;> simp

/-- An instruction that is passed over is reported, and storage stays as it is. -/
theorem step_skipped {i : Instruction} {x : Malformed} (hi : m.program[m.index]? = some i)
    (hs : m.stage = .execute) (ha : i.attempt m.strict m.storage m.enter.cycle = .ok (.skipped x)) :
    .skipped x ∈ m.step.log ∧ m.step.machine.storage = m.storage := by
  have hturn : m.enter.turn i = .ok (m.enter.attempted i (.skipped x)) := by
    have hstage : m.enter.stage = .execute := hs
    have hattempt : i.attempt m.enter.strict m.enter.storage m.enter.cycle = .ok (.skipped x) := ha
    unfold turn execute
    rw [hstage, hattempt]
    rfl
  unfold step stepWith
  rw [hi]
  dsimp only
  rw [hturn]
  unfold Turn.conclude
  cases i.assembly with
  | error u => exact ⟨List.mem_singleton_self _, rfl⟩
  | ok text =>
    refine ⟨List.mem_append_left _ (List.mem_singleton_self _), ?_⟩
    exact storage_proceed _

theorem Sound.steps (h : m.Sound) (n : Nat) : (m.steps n).Sound := by
  induction n with
  | zero => exact h
  | succ n ih => exact ih.perform .step

theorem Faultless.runsThrough (h : m.Faultless) (hm : m.AtStart) : m.RunsThrough := by
  intro n
  have hp : ∀ i ∈ m.program, i.WellTyped := fun i hi => (h i hi).1
  have hf : ∀ k f, (m.steps k).step.outcome ≠ .failed f := fun k => (h.steps hm.sound k).step
  obtain ⟨htrack, hlen⟩ := hm.steps hp fun k _ => hf k
  have hprogram := (m.steps_fixed n).2.2
  rcases htrack.step (hprogram ▸ hp) with ⟨ho, hend, -⟩ | ⟨ho, hlt, -⟩ | ⟨f, ho, -⟩
  · rw [hprogram] at hend
    rw [ho, if_neg (by omega)]
  · rw [hprogram] at hlt
    rw [ho, if_pos (by omega)]
  · exact absurd ho (hf n f)

/-- In a run without failures, an instruction that lacks something is passed over. -/
theorem RunsThrough.response (h : m.RunsThrough) (hm : m.AtStart) (hp : ∀ i ∈ m.program, i.WellTyped)
    {k : Nat} {i : Instruction} (hi : m.program[k]? = some i)
    (hlacks : i.isComplete m.storage.registers.names m.storage.memory.size = false) :
    (m.strict = false ∧ i.id.isWritable = true) ∧
      ∃ w, .skipped (i.malformed w) ∈ (m.steps (4 * k + 2)).step.log ∧
        (m.steps (4 * k + 2)).step.machine.storage = (m.steps (4 * k + 2)).storage := by
  have hk := (List.getElem?_eq_some_iff.1 hi).1
  have hout := h.not_failed (4 * k + 2)
  have hsound := hm.sound.steps (4 * k + 2)
  obtain ⟨hblank, hstrict, hprogram⟩ := m.steps_fixed (4 * k + 2)
  obtain ⟨htrack, hlen⟩ := hm.steps hp (n := 4 * k + 2) fun j _ => h.not_failed j
  generalize m.steps (4 * k + 2) = now at *
  obtain ⟨hindex, hstage⟩ := place_eq_execute (k := k) (htrack.place.symm.trans (by omega))
  obtain ⟨hnames, hsize⟩ := hm.sound.layout hsound hblank
  have hat : now.program[now.index]? = some i := by rw [hprogram, hindex, hi]
  rcases Instruction.action_decides (s := now.storage) (hp i (List.mem_of_getElem? hi)) with
    ⟨hyes, -⟩ | ⟨-, w, ha⟩
  · rw [hnames, hsize, hlacks] at hyes
    cases hyes
  · rcases Instruction.response_flaw i now.strict w with ⟨hsoft, hid, hr⟩ | ⟨f, hr⟩
    · refine ⟨⟨hstrict ▸ hsoft, hid⟩, w, step_skipped hat hstage ?_⟩
      exact (Instruction.attempt_of_error ha _ _).trans hr
    · exact absurd (FailsWith.step ⟨hstage, i, .flaw w, hat, ha, hr⟩).1 (hout f)

/-- A machine runs through its program exactly if nothing in it fails. -/
theorem runsThrough_iff_faultless (hm : m.AtStart) (hp : ∀ i ∈ m.program, i.WellTyped) :
    m.RunsThrough ↔ m.Faultless := by
  refine ⟨fun h i hi => ?_, fun h => h.runsThrough hm⟩
  obtain ⟨k, hk⟩ := List.mem_iff_getElem?.1 hi
  have hlt := (List.getElem?_eq_some_iff.1 hk).1
  refine ⟨hp i hi, ?_, ?_⟩
  · -- the record of its fetch shows the instruction
    obtain ⟨htrack, hlen⟩ := hm.steps hp (n := 4 * k + 1) fun j _ => h.not_failed j
    have hin : 4 * k < (m.steps (4 * k + 1)).history.length := by omega
    obtain ⟨-, -, hr, hshown⟩ := htrack.records _ _ (List.getElem?_eq_getElem hin)
    rw [(m.steps_fixed _).2.2, Nat.mul_div_cancel_left k (by decide), hk] at hr
    cases hr
    exact hshown
  · cases hc : i.isComplete m.storage.registers.names m.storage.memory.size with
    | true => exact .inl rfl
    | false => exact .inr (h.response hm hp hk hc).1

theorem RunsThrough.passesOver (h : m.RunsThrough) (hm : m.AtStart) (hp : ∀ i ∈ m.program, i.WellTyped) :
    m.PassesOver :=
  fun _ _ hk hlacks => (h.response hm hp hk hlacks).2

end PhaseMachine.Machine
