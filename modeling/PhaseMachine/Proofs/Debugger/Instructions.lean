/-
The rest of an instruction under the debugger. The loop has no limit: it carries phases out until one of
them is a store or the program is over. What carries the induction is that all phases so far are of the
instruction that the loop started in, and that it has more of them, so the store comes with its last,
unless a plain step before it fails. Whoever calls again and again gets the history, in pieces.
-/
import PhaseMachine.Proofs.Debugger.Calls
import PhaseMachine.Proofs.Machine.Remainder

namespace PhaseMachine.Debugger

variable {τ : Type} [Quantity τ] {d now : Debugger τ} {m : Machine τ} {done : List Record}

/-! ## The loop -/

/-- The rest of the instruction is carried out: its phases are those of plain steps, the answer is their
records in order, and the machine is before the next instruction. At the end of the program nothing is
done. -/
structure Completes (d : Debugger τ) (report : Report τ (List Record)) : Prop where
  stepped : ∀ k < d.machine.remaining, (d.machine.steps k).step.outcome = .stepped
  result : ∃ records, report.result = .ok records ∧ records.length = d.machine.remaining ∧
    report.debugger.machine.history = d.machine.history ++ records ∧
    ∀ k r, records[k]? = some r → Stage.all[(d.machine.history.length + k) % 4]? = some r.stage ∧
      d.machine.program[d.machine.index]? = some r.instruction
  index : report.debugger.machine.index = d.machine.index + if d.machine.nextPhase = .idle then 0 else 1
  next : report.debugger.machine.nextPhase = .at .fetch ∨ report.debugger.machine.nextPhase = .idle
  machine : d.machine.nextPhase ≠ .idle → report.debugger.machine = d.machine.steps d.machine.remaining
  finished : d.machine.nextPhase = .idle → report.debugger.machine = { d.machine with phase := .idle }

/-- The plain step after `k` phases of the instruction fails, and the loop with it. -/
structure BreaksOff (d : Debugger τ) (k : Nat) (f : Failure) (report : Report τ (List Record)) : Prop where
  early : k < d.machine.stage.left
  stepped : ∀ j < k, (d.machine.steps j).step.outcome = .stepped
  failed : (d.machine.steps k).step.outcome = .failed f
  result : report.result = .error f
  machine : report.debugger.machine = d.machine.steps (k + 1)

/-- From anywhere in an instruction, the loop ends with its store or with a step that fails before. -/
theorem stepToStore_ends (hm : m.nextPhase ≠ .idle) (hnow : now.machine = m.steps done.length)
    (h : m.Carries done) (hn : done.length < m.stage.left) (log : List Event) :
    (∃ records, m.Carries records ∧ records.length = m.stage.left ∧
      (now.stepToStore done log).result = .ok records ∧
      (now.stepToStore done log).debugger.machine = m.steps m.stage.left) ∨
    ∃ k f, k < m.stage.left ∧ (∀ j < k, (m.steps j).step.outcome = .stepped) ∧
      (m.steps k).step.outcome = .failed f ∧ (now.stepToStore done log).result = .error f ∧
      (now.stepToStore done log).debugger.machine = m.steps (k + 1) := by
  fun_induction now.stepToStore done log with
  | case1 done log now report f hresult =>
    obtain ⟨ho, hnext⟩ := stepPhase_failed hresult
    refine .inr ⟨done.length, f, hn, h.stepped, hnow ▸ ho, rfl, ?_⟩
    show report.debugger.machine = _
    rw [hnext, hnow]
    rfl
  | case2 done log now report hresult =>
    -- in the instruction the program is not over
    obtain ⟨ho, -⟩ := stepPhase_finished hresult
    have hidle := (Machine.finished_iff _).1 ho
    rw [Machine.nextPhase_eq_idle, hnow, (m.steps_fixed _).2.2, (Machine.index_steps h.stepped hn).1,
      ← Machine.nextPhase_eq_idle] at hidle
    exact absurd hidle hm
  | case3 done log now report r hresult hstore =>
    obtain ⟨ho, hr, hnext⟩ := stepPhase_stepped hresult
    obtain ⟨hmore, hnum⟩ := h.concat hn (hnow ▸ ho) (hnow ▸ hr)
    have hleft := m.stage.number_add_left
    rw [hstore, Stage.number] at hnum
    have hlen : done.length + 1 = m.stage.left := by omega
    refine .inl ⟨done ++ [r], hmore, by rw [List.length_append, List.length_singleton, hlen], rfl, ?_⟩
    show report.debugger.machine = _
    rw [hnext, hnow, ← hlen]
    rfl
  | case4 done log now report r hresult hstore ih =>
    obtain ⟨ho, hr, hnext⟩ := stepPhase_stepped hresult
    obtain ⟨hmore, hnum⟩ := h.concat hn (hnow ▸ ho) (hnow ▸ hr)
    have hleft := m.stage.number_add_left
    have hlast : r.stage.number ≠ 3 := mt (Stage.number_inj (t := .store)).1 hstore
    have hlt := r.stage.number_lt
    refine ih ?_ hmore ?_
    · show report.debugger.machine = _
      rw [hnext, hnow, List.length_append, List.length_singleton]
      rfl
    · rw [List.length_append, List.length_singleton]
      omega

/-! ## One instruction -/

/-- After the end of the program the loop finds so at once. -/
theorem stepInstruction_finished (hidle : d.machine.nextPhase = .idle) : d.Completes d.stepInstruction := by
  have hzero : d.machine.remaining = 0 := if_pos hidle
  obtain ⟨hnone, hnext⟩ : d.stepPhase.result = .ok none ∧
      d.stepPhase.debugger.machine = { d.machine with phase := .idle } := by
    have ho := (Machine.finished_iff _).2 hidle
    rcases d.stepPhase_cases with ⟨hr, -, hnext⟩ | ⟨f, -, ho', -⟩ | ⟨r, -, ho', -⟩
    · exact ⟨hr, by rw [hnext]⟩
    · rw [ho] at ho'; cases ho'
    · rw [ho] at ho'; cases ho'
  have hreport : d.stepInstruction = ⟨.ok [], d.stepPhase.debugger, [] ++ d.stepPhase.log⟩ := by
    unfold stepInstruction stepToStore
    dsimp only
    split
    · next f hr => rw [hnone] at hr; cases hr
    · rfl
    · next r hr => rw [hnone] at hr; cases hr
  have hmachine : d.stepInstruction.debugger.machine = { d.machine with phase := .idle } := by
    rw [hreport, hnext]
  refine ⟨fun k hk => absurd hk (by omega), ⟨[], by rw [hreport], hzero.symm, ?_, fun k r hk => by cases hk⟩,
    ?_, .inr ?_, fun hne => absurd hidle hne, fun _ => hmachine⟩
  · rw [hmachine, List.append_nil]
  · rw [hmachine, if_pos hidle]
    rfl
  · rw [hmachine]
    exact hidle

/-- A loop that comes to the store of the instruction completes it. -/
theorem completes_of_carries (hm : d.machine.Placed) {records : List Record} (h : d.machine.Carries records)
    (hlen : records.length = d.machine.stage.left) {report : Report τ (List Record)}
    (hresult : report.result = .ok records)
    (hmachine : report.debugger.machine = d.machine.steps d.machine.stage.left) : d.Completes report := by
  have hleft := d.machine.stage.number_add_left
  have hnum := d.machine.stage.number_lt
  have hfirst : d.machine.step.outcome = .stepped := h.stepped 0 (by omega)
  have hremaining := hm.remaining_eq hfirst
  have hplace : report.debugger.machine.place = d.machine.place + d.machine.stage.left := by
    rw [hmachine, ← hlen]
    exact Machine.place_steps h.stepped
  have hbefore := d.machine.index_eq
  have hafter := report.debugger.machine.index_eq
  have hidle : d.machine.nextPhase ≠ .idle := fun hidle => by
    rw [(Machine.finished_iff _).2 hidle] at hfirst
    cases hfirst
  refine ⟨fun k hk => h.stepped k (by omega),
    ⟨records, hresult, hlen.trans hremaining.symm, ?_, fun k r hk => ?_⟩, ?_, ?_, fun _ => ?_,
    fun hyes => absurd hyes hidle⟩
  · rw [hmachine, ← hlen]
    exact h.history
  · obtain ⟨hstage, hi⟩ := h.records k r hk
    rw [hm.length_eq hfirst, ← hstage]
    exact ⟨r.stage.getElem?_all, hi⟩
  · rw [if_neg hidle]
    omega
  · have hstage : report.debugger.machine.stage = .fetch :=
      (Stage.number_inj (t := .fetch)).1 (by rw [Stage.number]; omega)
    by_cases hend : report.debugger.machine.nextPhase = .idle
    · exact .inr hend
    · rw [Machine.nextPhase_eq_idle, List.getElem?_eq_none_iff, not_le] at hend
      exact .inl (hstage ▸ Machine.nextPhase_of_lt hend)
  · rw [hmachine, hremaining]

/-- The rest of an instruction is carried out, or a plain step in it fails. -/
theorem stepInstruction_ends (hm : d.machine.Reachable) :
    d.Completes d.stepInstruction ∨ ∃ k f, d.BreaksOff k f d.stepInstruction := by
  by_cases hidle : d.machine.nextPhase = .idle
  · exact .inl (stepInstruction_finished hidle)
  · have hleft := d.machine.stage.number_add_left
    have hnum := d.machine.stage.number_lt
    have hpos : ([] : List Record).length < d.machine.stage.left := by
      rw [List.length_nil]
      omega
    rcases stepToStore_ends hidle rfl d.machine.carries_nil hpos [] with
      ⟨records, h, hlen, hresult, hmachine⟩ | ⟨k, f, hk, hstepped, hfailed, hresult, hmachine⟩
    · exact .inl (completes_of_carries hm.placed h hlen hresult hmachine)
    · exact .inr ⟨k, f, hk, hstepped, hfailed, hresult, hmachine⟩

theorem completes_of_ok (hm : d.machine.Reachable) {records : List Record}
    (h : d.stepInstruction.result = .ok records) : d.Completes d.stepInstruction := by
  refine (stepInstruction_ends hm).resolve_right ?_
  rintro ⟨k, f, hbreaks⟩
  rw [hbreaks.result] at h
  cases h

/-- What is completed had nothing to fail at. -/
theorem Completes.passable (h : d.Completes d.stepInstruction) (hm : d.machine.Reachable) {i : Instruction}
    (hi : d.machine.program[d.machine.index]? = some i) (hw : i.WellTyped) : d.machine.Passable i := by
  have hleft := d.machine.stage.number_add_left
  have hidle : d.machine.nextPhase ≠ .idle := fun hidle => by
    rw [(Machine.nextPhase_eq_idle _).1 hidle] at hi
    cases hi
  have hstepped := h.stepped
  have hfirst : d.machine.step.outcome = .stepped := hstepped 0 (by rw [Machine.remaining, if_neg hidle]; omega)
  rw [hm.placed.remaining_eq hfirst] at hstepped
  refine ⟨?_, ?_⟩
  · obtain ⟨j, text, hj, htext⟩ := Machine.shown_of_stepped hfirst
    rw [hi] at hj
    cases hj
    exact (Instruction.assembly_ok_iff hw).1 ⟨text, htext⟩
  · by_contra hnot
    obtain ⟨hstore, hlacks⟩ := not_or.1 hnot
    have hnum : d.machine.stage.number ≠ 3 := mt (Stage.number_inj (t := .store)).1 hstore
    have hlt := d.machine.stage.number_lt
    -- the execute stage is still to come
    obtain ⟨k, hk⟩ : ∃ k, d.machine.stage.number + k = 2 := ⟨2 - d.machine.stage.number, by omega⟩
    have hin : k < d.machine.stage.left := by omega
    obtain ⟨f, ho⟩ := (Machine.fails_steps_iff hm.sound hi hw (fun j hj => hstepped j (hj.trans hin)) hin).2
      (.inr ⟨hk, hlacks⟩)
    rw [hstepped k hin] at ho
    cases ho

/-- A loop that breaks off had something to fail at. -/
theorem BreaksOff.not_passable {k : Nat} {f : Failure} (h : d.BreaksOff k f d.stepInstruction)
    (hm : d.machine.Reachable) (hp : ∀ i ∈ d.machine.program, i.WellTyped) :
    ∃ i, d.machine.program[d.machine.index]? = some i ∧ ¬ d.machine.Passable i := by
  have hfailed := h.failed
  cases hi : d.machine.program[d.machine.index]? with
  | none =>
    have hend : (d.machine.steps k).program[(d.machine.steps k).index]? = none := by
      rw [(d.machine.steps_fixed k).2.2, (Machine.index_steps h.stepped h.early).1, hi]
    rw [(Machine.step_of_none hend).1] at hfailed
    cases hfailed
  | some i =>
    refine ⟨i, rfl, fun ⟨hshown, hpasses⟩ => ?_⟩
    rcases (Machine.fails_steps_iff hm.sound hi (hp i (List.mem_of_getElem? hi)) h.stepped h.early).1
      ⟨f, hfailed⟩ with hnot | ⟨hk, hnot⟩
    · exact hnot hshown
    · rcases hpasses with hstore | hyes
      · rw [hstore, Stage.number] at hk
        omega
      · exact hnot hyes

/-- The loop comes through exactly if there is nothing in the rest of the instruction to fail at. -/
theorem completes_iff_passable (hm : d.machine.Reachable) (hp : ∀ i ∈ d.machine.program, i.WellTyped) :
    d.Completes d.stepInstruction ↔
      ∀ i, d.machine.program[d.machine.index]? = some i → d.machine.Passable i := by
  refine ⟨fun h i hi => h.passable hm hi (hp i (List.mem_of_getElem? hi)), fun h => ?_⟩
  refine (stepInstruction_ends hm).resolve_right ?_
  rintro ⟨k, f, hbreaks⟩
  obtain ⟨i, hi, hnot⟩ := hbreaks.not_passable hm hp
  exact hnot (h i hi)

/-! ## One instruction after another -/

/-- Calls in a row for the rest of an instruction. -/
def instructions (d : Debugger τ) (n : Nat) : Debugger τ :=
  d.afterCalls (List.replicate n .stepInstruction)

/-- Calls in a row for the rest of an instruction answer these lists. -/
def Answers (d : Debugger τ) (lists : List (List Record)) : Prop :=
  ∀ k records, lists[k]? = some records → (d.instructions k).stepInstruction.result = .ok records

theorem instructions_succ (d : Debugger τ) (n : Nat) :
    d.instructions (n + 1) = (d.instructions n).stepInstruction.debugger := by
  unfold instructions
  rw [List.replicate_succ', afterCalls_concat]
  rfl

theorem answers_concat {lists : List (List Record)} {records : List Record} :
    d.Answers (lists ++ [records]) ↔
      d.Answers lists ∧ (d.instructions lists.length).stepInstruction.result = .ok records := by
  constructor
  · intro h
    refine ⟨fun k l hk => h k l ?_, h _ _ List.getElem?_concat_length⟩
    rw [List.getElem?_append_left (List.getElem?_eq_some_iff.1 hk).1]
    exact hk
  · rintro ⟨h, hlast⟩ k l hk
    rcases lt_trichotomy k lists.length with hlt | rfl | hgt
    · rw [List.getElem?_append_left hlt] at hk
      exact h k l hk
    · rw [List.getElem?_concat_length] at hk
      cases hk
      exact hlast
    · rw [List.getElem?_eq_none (by simpa using hgt)] at hk
      cases hk

/-- The lists make up what the calls add to the history. -/
theorem Answers.history (hm : d.machine.Reachable) {lists : List (List Record)} (h : d.Answers lists) :
    (d.instructions lists.length).machine.history = d.machine.history ++ lists.flatten := by
  induction lists using List.reverseRecOn with
  | nil => exact (List.append_nil _).symm
  | append_singleton lists records ih =>
    obtain ⟨hbefore, hlast⟩ := answers_concat.1 h
    have hnow : (d.instructions lists.length).machine.Reachable := reachable_afterCalls hm _
    obtain ⟨answer, hresult, -, hhistory, -⟩ := (completes_of_ok hnow hlast).result
    rw [hlast] at hresult
    cases hresult
    rw [List.length_append, List.length_singleton, instructions_succ, hhistory, ih hbefore, List.flatten_append,
      List.flatten_singleton, List.append_assoc]

theorem Completes.program (h : d.Completes d.stepInstruction) :
    d.stepInstruction.debugger.machine.program = d.machine.program := by
  by_cases hidle : d.machine.nextPhase = .idle
  · rw [h.finished hidle]
  · rw [h.machine hidle, (d.machine.steps_fixed _).2.2]

/-- What never fails goes on so. -/
theorem faultless_instructions (hm : d.machine.Reachable) (h : d.machine.Faultless) (n : Nat) :
    (d.instructions n).machine.Faultless := by
  induction n with
  | zero => exact h
  | succ n ih =>
    have hnow : (d.instructions n).machine.Reachable := reachable_afterCalls hm _
    have hphase : ∀ now : Debugger τ, now.machine.Faultless ∧ now.machine.Sound →
        now.stepPhase.debugger.machine.Faultless ∧ now.stepPhase.debugger.machine.Sound := by
      rintro now ⟨hf, hs⟩
      have hop : (.step : Machine.Op τ).restarts = false := rfl
      rw [now.stepPhase_keeps.1]
      exact ⟨hf.perform hs hop, hs.perform .step⟩
    rw [instructions_succ]
    exact (stepToStore_keeps hphase ⟨ih, hnow.sound⟩ ..).1

theorem completes_of_faultless (hm : d.machine.Reachable) (h : d.machine.Faultless) :
    d.Completes d.stepInstruction := by
  refine (completes_iff_passable hm fun i hi => (h i hi).1).2 fun i hi => ?_
  obtain ⟨-, hshown, hexecutes⟩ := h i (List.mem_of_getElem? hi)
  exact ⟨hshown, .inr hexecutes⟩

/-- Calls that do not fail take a program instruction by instruction to its end. -/
theorem instructions_place {start : Debugger τ} (hm : start.machine.Reachable) (hf : start.machine.Faultless)
    (hindex : start.machine.index = 0) (hempty : start.machine.history = []) (n : Nat) :
    (start.instructions n).machine.program = start.machine.program ∧
      (start.instructions n).machine.index = min n start.machine.program.length ∧
      (start.instructions n).machine.history.length = 4 * min n start.machine.program.length := by
  induction n with
  | zero =>
    show start.machine.program = start.machine.program ∧ start.machine.index = _ ∧ start.machine.history.length = _
    rw [hindex, hempty, Nat.zero_min]
    exact ⟨rfl, rfl, rfl⟩
  | succ n ih =>
    obtain ⟨hprogram, hbefore, hlen⟩ := ih
    have hnow : (start.instructions n).machine.Reachable := reachable_afterCalls hm _
    have h := completes_of_faultless hnow (faultless_instructions hm hf n)
    obtain ⟨records, -, hrecords, hhistory, -⟩ := h.result
    have hidle : (start.instructions n).machine.nextPhase = .idle ↔ start.machine.program.length ≤ n := by
      rw [Machine.nextPhase_eq_idle, List.getElem?_eq_none_iff, hprogram, hbefore]
      omega
    rw [instructions_succ, h.program, h.index, hhistory, List.length_append, hrecords, Machine.remaining, hprogram,
      hbefore, hlen]
    refine ⟨rfl, ?_⟩
    split
    · next hyes =>
      have hle := hidle.1 hyes
      omega
    · next hno =>
      have hlt := mt hidle.2 hno
      omega

/-- As many calls as one likes answer a list each. -/
theorem exists_answers (hm : d.machine.Reachable) (hf : d.machine.Faultless) (n : Nat) :
    ∃ lists, lists.length = n ∧ d.Answers lists := by
  induction n with
  | zero => exact ⟨[], rfl, fun k records hk => by cases hk⟩
  | succ n ih =>
    obtain ⟨lists, rfl, h⟩ := ih
    have hnow : (d.instructions lists.length).machine.Reachable := reachable_afterCalls hm _
    obtain ⟨records, hresult, -⟩ := (completes_of_faultless hnow (faultless_instructions hm hf _)).result
    exact ⟨lists ++ [records], by simp, answers_concat.2 ⟨h, hresult⟩⟩

/-- Take any debugger on a machine that a setup can come to, after any calls. The loop that carries out the
rest of the instruction ends, with the records of the phases that are left or with a plain step that fails
before the last of them. For well-typed instructions it comes through exactly if the current one can be
shown and, while its execute stage is still to come, that stage gets past it; there is nothing to fail at
after the end of the program. After a load, the lists that calls in a row answer make up the history, and
for a program with nothing to fail at they go on to be answered: four records each up to the end of the
program, and none after it. -/
theorem stepInstruction_completes (hm : d.machine.Reachable) (calls : List (Call τ)) :
    let now := d.afterCalls calls
    (now.Completes now.stepInstruction ∨ ∃ k f, now.BreaksOff k f now.stepInstruction) ∧
    ((∀ i ∈ now.machine.program, i.WellTyped) → (now.Completes now.stepInstruction ↔
      ∀ i, now.machine.program[now.machine.index]? = some i → now.machine.Passable i)) ∧
    ∀ program, let start := now.call (.machine (.load program))
      (∀ lists, start.Answers lists → (start.instructions lists.length).machine.history = lists.flatten) ∧
      (start.machine.Faultless → ∀ n, ∃ lists, lists.length = n ∧ start.Answers lists ∧
        lists.flatten.length = 4 * min n program.length) := by
  intro now
  have hnow : now.machine.Reachable := reachable_afterCalls hm calls
  refine ⟨stepInstruction_ends hnow, completes_iff_passable hnow, fun program => ?_⟩
  intro start
  have hstart : start.machine.Reachable := hnow.perform (.load program)
  have hhistory : ∀ lists, start.Answers lists →
      (start.instructions lists.length).machine.history = lists.flatten := fun lists h => h.history hstart
  refine ⟨hhistory, fun hf n => ?_⟩
  obtain ⟨lists, rfl, h⟩ := exists_answers hstart hf n
  refine ⟨lists, rfl, h, ?_⟩
  rw [← hhistory lists h]
  exact (instructions_place hstart hf rfl rfl lists.length).2.2

/-- A debugger on a program whose second instruction is passed over. -/
def passing : Debugger Rat :=
  attach ((Machine.small false false).load Machine.stoppingProgram)

/-- It goes on from before the execute stage of that instruction, and from the start through both. -/
theorem stepInstruction_completes_passing :
    let now := passing.afterCalls [.stepInstruction, .stepPhase, .run (some 1)]
    now.machine.nextPhase = .at .execute ∧ now.machine.remaining = 2 ∧ now.Completes now.stepInstruction ∧
      ∃ lists, lists.length = 3 ∧ (now.call (.machine (.load Machine.stoppingProgram))).Answers lists ∧
        lists.flatten.length = 8 := by
  intro now
  have hm : passing.machine.Reachable := (Machine.reachable_small false false).perform (.load _)
  obtain ⟨-, hiff, hload⟩ := stepInstruction_completes hm [.stepInstruction, .stepPhase, .run (some 1)]
  have hp : ∀ i ∈ now.machine.program, i.WellTyped := by decide +kernel
  have hpassable : ∀ i ∈ now.machine.program[now.machine.index]?, now.machine.Passable i := by decide +kernel
  have hf : (now.call (.machine (.load Machine.stoppingProgram))).machine.Faultless := by
    unfold Machine.Faultless
    decide +kernel
  exact ⟨by decide +kernel, by decide +kernel, (hiff hp).2 hpassable, (hload Machine.stoppingProgram).2 hf 3⟩

/-- Where the instruction cannot be shown in assembly, the rest of it should be carried out and answered as
four records, but the call fails, with one record in the history. -/
theorem stepInstruction_fails_overlong :
    overlong.machine.Reachable ∧ overlong.machine.strict = false ∧
    (∀ i ∈ overlong.machine.program, i.WellTyped) ∧
    overlong.machine.remaining = 4 ∧
    overlong.stepInstruction.result = .error (.misuse .unwritable) ∧
    overlong.stepInstruction.debugger.machine.history.length = 1 ∧
    ¬ overlong.Completes overlong.stepInstruction := by
  have hresult : overlong.stepInstruction.result = .error (.misuse .unwritable) := by
    have hcount : overlong.stepInstruction.result.map List.length = .error (.misuse .unwritable) := by
      decide +kernel
    cases h : overlong.stepInstruction.result with
    | error f => rw [h] at hcount; cases hcount; rfl
    | ok records => rw [h] at hcount; cases hcount
  refine ⟨(Machine.reachable_small false false).perform (.load _), rfl, by decide, by decide +kernel, hresult,
    by decide +kernel, fun h => ?_⟩
  obtain ⟨records, hok, -⟩ := h.result
  rw [hok] at hresult
  cases hresult

end PhaseMachine.Debugger
