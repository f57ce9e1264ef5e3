/-
Programs whose texts can be written. A step puts the operands of its instruction into a text, and the id of
one that is malformed, and an integer with too many digits cannot be written. Whether a step ever comes to
such an integer is plain from the program: a machine goes through its instructions in order, and a strict one
does not come past the first malformed one.
-/
import PhaseMachine.Proofs.Machine.Remainder
import PhaseMachine.Proofs.Machine.Strictness

namespace PhaseMachine.Machine

variable {τ : Type} {m : Machine τ} {i : Instruction} {n : Nat}

/-- The operands of every instruction that the machine can come to can be written, and the id of every one
that it would have to report. -/
def Legible (m : Machine τ) : Prop :=
  ∀ k i, m.program[k]? = some i → (m.strict = true → k ≤ m.firstMalformed) →
    i.Shown ∧ (m.lacks i = true → i.id.isWritable = true)

theorem legible_of_writable (h : ∀ i ∈ m.program, i.Writable) : m.Legible := by
  intro k i hi _
  have hw := h i (List.mem_of_getElem? hi)
  exact ⟨hw.shown, fun _ => hw.2.2⟩

/-- An instruction that lacks something is not got past in a strict machine, nor if it cannot be reported. -/
theorem not_executes (hlacks : m.lacks i = true) (h : m.strict = false → i.id.isWritable = false) :
    ¬ m.Executes i := by
  rintro (hyes | ⟨hsoft, hid⟩)
  · rw [lacks, hyes] at hlacks
    cases hlacks
  · rw [h hsoft] at hid
    cases hid

/-! ## How a step fails -/

/-- The work of a stage fails at an execute stage whose instruction lacks something: at the instruction if the
machine is strict and can report it, or else at an id that it cannot write. -/
theorem failed_work_cases (hi : m.program[m.index]? = some i) (hw : i.WellTyped) {f : Failure}
    (hwork : m.enter.work i = .error f) :
    m.stage = .execute ∧ m.lacks i = true ∧
      ((∃ x, f = .malformed x ∧ m.strict = true ∧ i.id.isWritable = true) ∨
        ∃ u, f = .misuse u ∧ i.id.isWritable = false) := by
  obtain ⟨hs, j, w, hj, ha, hr⟩ := failsWith_of_work hi hwork
  rw [hi] at hj
  cases hj
  rcases Instruction.action_decides (s := m.storage) hw with ⟨-, a, hok⟩ | ⟨hno, v, hflaw⟩
  · rw [hok] at ha; cases ha
  · rw [hflaw] at ha
    cases ha
    refine ⟨hs, by rw [lacks, hno]; rfl, ?_⟩
    unfold Instruction.response at hr
    cases hid : i.id.isWritable with
    | false =>
      rw [hid] at hr
      cases hr
      exact .inr ⟨_, rfl, rfl⟩
    | true =>
      rw [hid] at hr
      cases hstrict : m.strict with
      | false => rw [hstrict] at hr; cases hr
      | true =>
        rw [hstrict] at hr
        cases hr
        exact .inl ⟨_, rfl, rfl, rfl⟩

variable [Quantity τ]

/-- A step fails at a malformed instruction if it is strict and can report it, or else at an integer that it
cannot write. -/
theorem failed_cases (hi : m.program[m.index]? = some i) (hw : i.WellTyped) {f : Failure}
    (ho : m.step.outcome = .failed f) :
    (∃ x, f = .malformed x ∧ m.stage = .execute ∧ m.lacks i = true ∧ m.strict = true ∧
      i.id.isWritable = true) ∨
    ∃ u, f = .misuse u ∧
      (¬ i.Shown ∨ m.stage = .execute ∧ m.lacks i = true ∧ i.id.isWritable = false) := by
  rcases m.step_cases with ⟨-, ho', -⟩ | ⟨j, g, hj, hwork, ho', -⟩ | ⟨j, e, text, -, -, -, ho', -⟩ |
    ⟨j, e, u, hj, -, ha, ho', -⟩
  · rw [ho] at ho'; cases ho'
  · rw [ho] at ho'
    cases ho'
    rw [hi] at hj
    cases hj
    obtain ⟨hs, hlacks, ⟨x, hx, hstrict, hid⟩ | ⟨u, hu, hid⟩⟩ := failed_work_cases hi hw hwork
    · exact .inl ⟨x, hx, hs, hlacks, hstrict, hid⟩
    · exact .inr ⟨u, hu, .inr ⟨hs, hlacks, hid⟩⟩
  · rw [ho] at ho'; cases ho'
  · rw [ho] at ho'
    cases ho'
    rw [hi] at hj
    cases hj
    refine .inr ⟨u, rfl, .inl fun hshown => ?_⟩
    obtain ⟨text, htext⟩ := (Instruction.assembly_ok_iff hw).2 hshown
    rw [ha] at htext
    cases htext

/-- A strict machine does not carry out the execute stage of its first malformed instruction. -/
theorem not_stepped_of_strict (hp : ∀ i ∈ m.program, i.WellTyped) (hs : m.strict = true)
    (hat : m.place = 4 * m.firstMalformed + 2) : m.step.outcome ≠ .stepped := by
  intro ho
  obtain ⟨hindex, hstage⟩ := place_eq_execute hat
  obtain ⟨i, e, hi, -⟩ := step_stepped ho
  have hnot := not_executes (lacks_firstMalformed (hindex ▸ hi)) fun hsoft => by
    rw [hs] at hsoft
    cases hsoft
  obtain ⟨f, hf⟩ := (fails_iff hi (hp i (List.mem_of_getElem? hi))).2 (.inr ⟨hstage, hnot⟩)
  rw [ho] at hf
  cases hf

/-! ## Programs that can be written -/

/-- A sound machine on its way through a program that can be written. -/
structure Lucid (m : Machine τ) : Prop where
  sound : m.Sound
  typed : ∀ i ∈ m.program, i.WellTyped
  legible : m.Legible
  before : m.strict = true → m.place ≤ 4 * m.firstMalformed + 2

theorem Lucid.step (h : m.Lucid) (u : Misuse) : m.step.outcome ≠ .failed (.misuse u) := by
  intro ho
  cases hi : m.program[m.index]? with
  | none => rw [(step_of_none hi).1] at ho; cases ho
  | some i =>
    have hreached : m.strict = true → m.index ≤ m.firstMalformed := fun hs => by
      have hle := h.before hs
      unfold place at hle
      omega
    obtain ⟨hshown, hid⟩ := h.legible m.index i hi hreached
    rcases failed_cases hi (h.typed i (List.mem_of_getElem? hi)) ho with
      ⟨x, hx, -⟩ | ⟨u', -, hnot | ⟨-, hlacks, hno⟩⟩
    · cases hx
    · exact hnot hshown
    · rw [hid hlacks] at hno
      cases hno

theorem Lucid.perform (h : m.Lucid) {op : Op τ} (ho : op.restarts = false) : (m.perform op).Lucid := by
  have hprogram := m.program_perform ho
  have hstrict := m.strict_perform op
  have hlacks := h.sound.lacks_perform op
  have hfirst := h.sound.firstMalformed_perform ho
  refine ⟨h.sound.perform op, hprogram ▸ h.typed, ?_, fun hs => ?_⟩
  · unfold Legible
    rw [hprogram, hstrict, hlacks, hfirst]
    exact h.legible
  · rw [hstrict] at hs
    have hle := h.before hs
    rw [hfirst]
    rcases Op.step_or_between ho with rfl | hb
    · show m.step.machine.place ≤ _
      rcases m.place_step with ⟨hstepped, hp⟩ | ⟨-, hp⟩
      · have hat := mt (not_stepped_of_strict h.typed hs) (not_not.2 hstepped)
        omega
      · omega
    · obtain ⟨stepDuration, bus, timers, clock, cache, he, -⟩ := m.between_eq hb
      rw [he]
      exact hle

theorem Lucid.after (h : m.Lucid) {ops : List (Op τ)} (ho : ∀ op ∈ ops, op.restarts = false) :
    (m.after ops).Lucid :=
  after_of_perform (P := Lucid) (fun _ _ hn hop => hn.perform hop) h ho

theorem Lucid.outcomes (h : m.Lucid) {ops : List (Op τ)} (ho : ∀ op ∈ ops, op.restarts = false) (u : Misuse) :
    .failed (.misuse u) ∉ m.outcomes ops := by
  induction ops generalizing m with
  | nil => exact List.not_mem_nil
  | cons op ops ih =>
    have hop := ho op (List.mem_cons_self ..)
    have hrest := ih (h.perform hop) fun op' hop' => ho op' (List.mem_cons_of_mem op hop')
    rcases Op.step_or_between hop with rfl | hb
    · intro hmem
      rcases List.mem_cons.1 hmem with hf | hf
      · exact h.step u hf.symm
      · exact hrest hf
    · rw [outcomes_between m hb]
      exact hrest

/-! ## Only these -/

theorem Sound.lacks_steps (h : m.Sound) (n : Nat) : (m.steps n).lacks = m.lacks := by
  rw [steps_eq_after]
  exact after_of_perform (P := fun now => now.Sound ∧ now.lacks = m.lacks)
    (fun now op hnow _ => ⟨hnow.1.perform op, (hnow.1.lacks_perform op).trans hnow.2⟩) ⟨h, rfl⟩
    (fun op hop => not_restarts_of_mem hop) |>.2

/-- As long as no step comes to an integer that it cannot write, a machine carries out all stages up to the
execute stage of an instruction, if it is not strict or none before is malformed. -/
theorem stepped_of_ne_misuse (hm : m.Sound) (hp : ∀ i ∈ m.program, i.WellTyped) (hstart : m.place = 0)
    (h : ∀ n u, (m.steps n).step.outcome ≠ .failed (.misuse u)) {k : Nat} (hk : k < m.program.length)
    (hreached : m.strict = true → k ≤ m.firstMalformed) (hn : n < 4 * k + 2) :
    (m.steps n).step.outcome = .stepped := by
  induction n using Nat.strong_induction_on with
  | _ n ih =>
    have hplace := place_steps fun j hj => ih j hj (hj.trans hn)
    obtain ⟨hindex, -⟩ := (m.steps n).index_eq
    obtain ⟨-, hstrict, hprogram⟩ := m.steps_fixed n
    have hlt : (m.steps n).index < m.program.length := by omega
    have hi : (m.steps n).program[(m.steps n).index]? = some m.program[(m.steps n).index] := by
      rw [hprogram]
      exact List.getElem?_eq_getElem hlt
    cases ho : (m.steps n).step.outcome with
    | stepped => rfl
    | finished =>
      rw [finished_iff, nextPhase_eq_idle, hi] at ho
      cases ho
    | failed f =>
      rcases failed_cases hi (hp _ (List.getElem_mem hlt)) ho with ⟨x, rfl, hs, hlacks, hstrict', -⟩ | ⟨u, rfl, -⟩
      · -- a malformed instruction before the first one
        have hexecute : (m.steps n).place = 4 * (m.steps n).index + 2 := by rw [place, hs, Stage.number]
        rw [hstrict] at hstrict'
        have hle := hreached hstrict'
        rw [hm.lacks_steps, not_lacks_of_lt (List.getElem?_eq_getElem hlt) (by omega)] at hlacks
        cases hlacks
      · exact absurd ho (h n u)

/-- An instruction is shown once the steps up to its fetch are carried out. -/
theorem shown_of_fetched (hstart : m.place = 0) {k : Nat} (hi : m.program[k]? = some i) (hw : i.WellTyped)
    (h : ∀ n ≤ 4 * k, (m.steps n).step.outcome = .stepped) : i.Shown := by
  have hplace := place_steps fun n hn => h n (Nat.le_of_lt hn)
  obtain ⟨hindex, -⟩ := (m.steps (4 * k)).index_eq
  obtain ⟨j, text, hj, htext⟩ := shown_of_stepped (h (4 * k) (Nat.le_refl _))
  rw [(m.steps_fixed (4 * k)).2.2, show (m.steps (4 * k)).index = k by omega, hi] at hj
  cases hj
  exact (Instruction.assembly_ok_iff hw).1 ⟨text, htext⟩

/-- An instruction that lacks something has an id that can be written, if the steps before its execute stage are
carried out and the next one comes to no integer that it cannot write. -/
theorem isWritable_id_of_reported (hm : m.Sound) (hstart : m.place = 0) {k : Nat} (hi : m.program[k]? = some i)
    (hw : i.WellTyped) (hlacks : m.lacks i = true)
    (h : ∀ n < 4 * k + 2, (m.steps n).step.outcome = .stepped)
    (hu : ∀ u, (m.steps (4 * k + 2)).step.outcome ≠ .failed (.misuse u)) : i.id.isWritable = true := by
  have hplace := place_steps h
  obtain ⟨hindex, hstage⟩ := place_eq_execute (hplace.trans (by omega : m.place + (4 * k + 2) = 4 * k + 2))
  have hat : (m.steps (4 * k + 2)).program[(m.steps (4 * k + 2)).index]? = some i := by
    rw [(m.steps_fixed (4 * k + 2)).2.2, hindex, hi]
  rw [← hm.lacks_steps (4 * k + 2)] at hlacks
  by_contra hid
  have hnot := not_executes hlacks fun _ => Bool.eq_false_iff.2 hid
  obtain ⟨f, ho⟩ := (fails_iff hat hw).2 (.inr ⟨hstage, hnot⟩)
  rcases failed_cases hat hw ho with ⟨x, -, -, -, -, hyes⟩ | ⟨u, rfl, -⟩
  · exact hid hyes
  · exact hu u ho

/-- A program of which no step comes to an integer that it cannot write can be written. -/
theorem legible_of_ne_misuse (hm : m.Sound) (hp : ∀ i ∈ m.program, i.WellTyped) (hstart : m.place = 0)
    (h : ∀ n u, (m.steps n).step.outcome ≠ .failed (.misuse u)) : m.Legible := by
  intro k i hi hreached
  have hw := hp i (List.mem_of_getElem? hi)
  have hk := (List.getElem?_eq_some_iff.1 hi).1
  have hstepped : ∀ n < 4 * k + 2, (m.steps n).step.outcome = .stepped := fun n hn =>
    stepped_of_ne_misuse hm hp hstart h hk hreached hn
  exact ⟨shown_of_fetched hstart hi hw fun n hn => hstepped n (by omega),
    fun hlacks => isWritable_id_of_reported hm hstart hi hw hlacks hstepped (h _)⟩

end PhaseMachine.Machine
