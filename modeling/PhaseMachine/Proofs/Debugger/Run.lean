/-
Where a run under the debugger ends. A run goes through the very states of plain steps, and it ends with
the first number of phases that a limit, a breakpoint or the end of the program stops, unless a step
before that fails. The loop checks a breakpoint on the next instruction before a phase and all others
after one; what carries the induction is that no number of phases so far stops the run, and that all but
the check before the next phase has been made for the latest.
-/
import Mathlib.Order.Bounds.Basic
import PhaseMachine.Debugger.Run
import PhaseMachine.Proofs.Debugger.Conditions

namespace PhaseMachine.Debugger

variable {τ : Type} [Quantity τ]

/-! ## What stops a run -/

/-- A limit is reached, or a breakpoint is met by the latest of the phases. -/
def Interrupted (d : Debugger τ) (limit : Option Int) (n : Nat) : Prop :=
  (∃ most ∈ limit, most ≤ (n : Int)) ∨
    0 < n ∧ ∃ r ∈ (d.machine.steps n).history.getLast?, ∃ b ∈ d.breakpoints, b.Met (d.machine.steps n) r

/-- A run is interrupted after `n` phases, or no phase is left. -/
def Stops (d : Debugger τ) (limit : Option Int) (n : Nat) : Prop :=
  d.Interrupted limit n ∨ (d.machine.steps n).nextPhase = .idle

/-- The record of the latest phase after `n` more of them. -/
def lastAfter (d : Debugger τ) (n : Nat) : Option Record :=
  if n = 0 then d.last else (d.machine.steps n).history.getLast?

/-- A run that goes on for as many phases as plain steps carry out before it first stops. -/
structure EndsAfter (d : Debugger τ) (limit : Option Int) (n : Nat) (report : Report τ Nat) : Prop where
  least : IsLeast {k | d.Stops limit k} n
  carried : ∀ k < n, (d.machine.steps k).step.outcome = .stepped
  records : ∃ records, records.length = n ∧ (d.machine.steps n).history = d.machine.history ++ records
  result : report.result = .ok n
  interrupted : d.Interrupted limit n → report.debugger.machine = d.machine.steps n
  finished : ¬ d.Interrupted limit n →
    report.debugger.machine = { d.machine.steps n with phase := .idle }
  last : report.debugger.last = d.lastAfter n
  breakpoints : report.debugger.breakpoints = d.breakpoints
  running : report.debugger.running = false

/-- A run that ends with the step that fails after `n` phases, none of which stops it. -/
structure FailsAfter (d : Debugger τ) (limit : Option Int) (n : Nat) (f : Failure) (report : Report τ Nat) :
    Prop where
  passed : ∀ k ≤ n, ¬ d.Stops limit k
  carried : ∀ k < n, (d.machine.steps k).step.outcome = .stepped
  failed : (d.machine.steps n).step.outcome = .failed f
  result : report.result = .error f
  machine : report.debugger.machine = d.machine.steps (n + 1)
  last : report.debugger.last = d.lastAfter n
  breakpoints : report.debugger.breakpoints = d.breakpoints

/-! ## One phase -/

/-- Carrying out a phase is a step of the machine: it finds the program over, fails, or answers the latest
record. -/
theorem stepPhase_cases (d : Debugger τ) :
    (d.stepPhase.result = .ok none ∧ d.machine.step.outcome = .finished ∧
      d.stepPhase.debugger = { d with machine := { d.machine with phase := .idle }, before := d.registers }) ∨
    (∃ f, d.stepPhase.result = .error f ∧ d.machine.step.outcome = .failed f ∧
      d.stepPhase.debugger = { d with machine := d.machine.step.machine, before := d.registers }) ∨
    ∃ r, d.stepPhase.result = .ok (some r) ∧ d.machine.step.outcome = .stepped ∧
      d.machine.step.machine.history.getLast? = some r ∧ d.stepPhase.debugger =
        { d with machine := d.machine.step.machine, before := d.registers, last := some r } := by
  unfold stepPhase
  dsimp only
  split
  · next ho =>
    have hidle := (Machine.nextPhase_eq_idle _).1 ((Machine.finished_iff _).1 ho)
    rw [(Machine.step_of_none hidle).2]
    exact .inl ⟨rfl, ho, rfl⟩
  · next ho =>
    obtain ⟨i, e, -, -, hs⟩ := Machine.step_stepped ho
    have hlast : d.machine.step.machine.history.getLast? = some (d.machine.enter.entry i e) := by
      rw [hs, (d.machine.proceed_recorded i e).2.1, List.getLast?_concat]
    rw [hlast]
    exact .inr (.inr ⟨_, rfl, ho, rfl, rfl⟩)
  · next f ho => exact .inr (.inl ⟨f, rfl, ho, rfl⟩)

theorem stepPhase_finished {d : Debugger τ} (h : d.stepPhase.result = .ok none) :
    d.machine.step.outcome = .finished ∧ d.stepPhase.debugger =
      { d with machine := { d.machine with phase := .idle }, before := d.registers } := by
  rcases d.stepPhase_cases with ⟨-, hstep⟩ | ⟨f, hr, -⟩ | ⟨r, hr, -⟩
  · exact hstep
  · rw [h] at hr; cases hr
  · rw [h] at hr; cases hr

theorem stepPhase_failed {d : Debugger τ} {f : Failure} (h : d.stepPhase.result = .error f) :
    d.machine.step.outcome = .failed f ∧ d.stepPhase.debugger =
      { d with machine := d.machine.step.machine, before := d.registers } := by
  rcases d.stepPhase_cases with ⟨hr, -⟩ | ⟨g, hr, hstep⟩ | ⟨r, hr, -⟩
  · rw [h] at hr; cases hr
  · rw [h] at hr; cases hr; exact hstep
  · rw [h] at hr; cases hr

theorem stepPhase_stepped {d : Debugger τ} {r : Record} (h : d.stepPhase.result = .ok (some r)) :
    d.machine.step.outcome = .stepped ∧ d.machine.step.machine.history.getLast? = some r ∧
      d.stepPhase.debugger =
        { d with machine := d.machine.step.machine, before := d.registers, last := some r } := by
  rcases d.stepPhase_cases with ⟨hr, -⟩ | ⟨f, hr, -⟩ | ⟨r', hr, hstep⟩
  · rw [h] at hr; cases hr
  · rw [h] at hr; cases hr
  · rw [h] at hr; cases hr; exact hstep

omit [Quantity τ] in
theorem reached_iff (limit : Option Int) (n : Nat) :
    Machine.reached limit n = true ↔ ∃ most ∈ limit, most ≤ (n : Int) := by
  unfold Machine.reached
  cases limit <;> simp

/-- The first phases of a run do not stop it, and the debugger is where they lead. -/
structure Passed (d : Debugger τ) (limit : Option Int) (n : Nat) (now : Debugger τ) : Prop where
  machine : now.machine = d.machine.steps n
  breakpoints : now.breakpoints = d.breakpoints
  last : now.last = d.lastAfter n
  carried : ∀ k < n, (d.machine.steps k).step.outcome = .stepped
  passed : ∀ k < n, ¬ d.Stops limit k

/-- All that can still interrupt the run where it is are a limit and the check before the next phase. -/
def Watched (d : Debugger τ) (limit : Option Int) (n : Nat) (now : Debugger τ) : Prop :=
  d.Interrupted limit n ↔ Machine.reached limit n = true ∨ n ≠ 0 ∧ now.stopsBefore = true

variable {d now : Debugger τ} {limit : Option Int} {n : Nat}

theorem passed_start (d : Debugger τ) (limit : Option Int) : d.Passed limit 0 { d with running := true } :=
  ⟨rfl, rfl, rfl, fun k hk => absurd hk k.not_lt_zero, fun k hk => absurd hk k.not_lt_zero⟩

theorem watched_start (d : Debugger τ) (limit : Option Int) : d.Watched limit 0 { d with running := true } := by
  unfold Watched
  rw [reached_iff]
  simp [Interrupted]

namespace Passed

/-- Nothing interrupts the run, and there is a phase left to carry out or to fail with. -/
theorem not_stops (h : d.Passed limit n now) (hi : ¬ d.Interrupted limit n)
    (ho : now.machine.step.outcome ≠ .finished) : ¬ d.Stops limit n := by
  rw [Ne, Machine.finished_iff, h.machine] at ho
  exact not_or.2 ⟨hi, ho⟩

/-- No number of phases before this one stops the run. -/
theorem isLeast (h : d.Passed limit n now) (hs : d.Stops limit n) : IsLeast {k | d.Stops limit k} n :=
  ⟨hs, fun k hk => not_lt.1 fun hlt => h.passed k hlt hk⟩

/-- A run that is interrupted has ended. -/
theorem ends (h : d.Passed limit n now) (hi : d.Interrupted limit n) (log : List Event) :
    d.EndsAfter limit n ⟨.ok n, now.stop, log⟩ where
  least := h.isLeast (.inl hi)
  carried := h.carried
  records := Machine.history_steps h.carried
  result := rfl
  interrupted _ := h.machine
  finished hn := absurd hi hn
  last := h.last
  breakpoints := h.breakpoints
  running := rfl

variable {later : Debugger τ} {r : Record}

/-- A run that finds the program over has ended, idle. -/
theorem finishes (h : d.Passed limit n now) (hi : ¬ d.Interrupted limit n)
    (ho : now.machine.step.outcome = .finished)
    (hlater : later = { now with machine := { now.machine with phase := .idle }, before := now.registers })
    (log : List Event) : d.EndsAfter limit n ⟨.ok n, later.stop, log⟩ := by
  have hidle := (Machine.finished_iff _).1 ho
  rw [h.machine] at hidle
  refine ⟨h.isLeast (.inr hidle), h.carried, Machine.history_steps h.carried, rfl,
    fun hyes => absurd hyes hi, fun _ => ?_, ?_, ?_, rfl⟩
  · show later.machine = _
    rw [hlater, h.machine]
  · show later.last = _
    rw [hlater, ← h.last]
  · show later.breakpoints = _
    rw [hlater, ← h.breakpoints]

/-- A step that fails ends a run that is not stopped. -/
theorem fails {f : Failure} (h : d.Passed limit n now) (hpass : ¬ d.Stops limit n)
    (ho : now.machine.step.outcome = .failed f)
    (hlater : later = { now with machine := now.machine.step.machine, before := now.registers })
    (log : List Event) : d.FailsAfter limit n f ⟨.error f, later, log⟩ := by
  refine ⟨fun k hk => ?_, h.carried, h.machine ▸ ho, rfl, ?_, ?_, ?_⟩
  · rcases hk.lt_or_eq with hk | rfl
    · exact h.passed k hk
    · exact hpass
  · show later.machine = _
    rw [hlater, h.machine]
    rfl
  · show later.last = _
    rw [hlater, ← h.last]
  · show later.breakpoints = _
    rw [hlater, ← h.breakpoints]

/-- A phase that is carried out takes a run on that is not stopped. -/
theorem go_on (h : d.Passed limit n now) (hpass : ¬ d.Stops limit n) (ho : now.machine.step.outcome = .stepped)
    (hr : now.machine.step.machine.history.getLast? = some r)
    (hlater : later = { now with machine := now.machine.step.machine, before := now.registers, last := some r }) :
    d.Passed limit (n + 1) later := by
  have hsteps : d.machine.steps (n + 1) = now.machine.step.machine := by
    rw [h.machine]
    rfl
  refine ⟨?_, ?_, ?_, fun k hk => ?_, fun k hk => ?_⟩
  · rw [hsteps, hlater]
  · rw [hlater, ← h.breakpoints]
  · rw [hlater, lastAfter, if_neg n.succ_ne_zero, hsteps, hr]
  · rcases Nat.lt_succ_iff_lt_or_eq.1 hk with hk | rfl
    · exact h.carried k hk
    · rw [← h.machine]
      exact ho
  · rcases Nat.lt_succ_iff_lt_or_eq.1 hk with hk | rfl
    · exact h.passed k hk
    · exact hpass

/-- Once a phase is carried out, the breakpoints are looked at in two checks. -/
theorem interrupted_succ (h : d.Passed limit n now) (hm : d.machine.Reachable)
    (ho : now.machine.step.outcome = .stepped) (hr : now.machine.step.machine.history.getLast? = some r)
    (hlater : later = { now with machine := now.machine.step.machine, before := now.registers, last := some r }) :
    d.Interrupted limit (n + 1) ↔ Machine.reached limit (n + 1) = true ∨
      later.stopsAfter r = true ∨ later.stopsBefore = true := by
  have hsound : now.machine.Sound := h.machine ▸ (hm.steps n).sound
  have hsteps : d.machine.steps (n + 1) = now.machine.step.machine := by
    rw [h.machine]
    rfl
  unfold Interrupted stopsAfter stopsBefore
  rw [hsteps, hr, hlater, ← h.breakpoints, reached_iff]
  simp only [Option.mem_some_iff, exists_eq_left', Breakpoint.met_iff hsound ho hr, Nat.zero_lt_succ, true_and,
    List.any_eq_true, Bool.and_eq_true, beq_iff_eq, and_or_left, exists_or]
  refine or_congr Iff.rfl (or_congr Iff.rfl ⟨?_, ?_⟩)
  · rintro ⟨b, hb, hfetch, hindex⟩
    exact ⟨hfetch, b, hb, hindex⟩
  · rintro ⟨hfetch, b, hb, hindex⟩
    exact ⟨b, hb, hfetch, hindex⟩

end Passed

/-! ## A whole run -/

/-- From anywhere in a run, the loop ends where the run first stops, or with a step that fails before. -/
theorem runFrom_ends (hm : d.machine.Reachable) (h : d.Passed limit n now) (hw : d.Watched limit n now)
    (log : List Event) :
    (∃ k, d.EndsAfter limit k (now.runFrom limit n log)) ∨
      ∃ k f, d.FailsAfter limit k f (now.runFrom limit n log) := by
  fun_induction now.runFrom limit n log with
  | case1 n log now hreached => exact .inl ⟨n, h.ends (hw.2 (.inl hreached)) log⟩
  | case2 n log now _ hbefore => exact .inl ⟨n, h.ends (hw.2 (.inr hbefore)) _⟩
  | case3 n log now hreached hbefore report f hresult =>
    obtain ⟨ho, hnext⟩ := stepPhase_failed hresult
    have hi : ¬ d.Interrupted limit n := mt hw.1 (not_or.2 ⟨hreached, hbefore⟩)
    have hpass := h.not_stops hi (by rw [ho]; simp)
    exact .inr ⟨n, f, h.fails hpass ho hnext _⟩
  | case4 n log now hreached hbefore report hresult =>
    obtain ⟨ho, hnext⟩ := stepPhase_finished hresult
    have hi : ¬ d.Interrupted limit n := mt hw.1 (not_or.2 ⟨hreached, hbefore⟩)
    exact .inl ⟨n, h.finishes hi ho hnext _⟩
  | case5 n log now hreached hbefore report r hresult hafter =>
    obtain ⟨ho, hr, hnext⟩ := stepPhase_stepped hresult
    have hi : ¬ d.Interrupted limit n := mt hw.1 (not_or.2 ⟨hreached, hbefore⟩)
    have hpass := h.not_stops hi (by rw [ho]; simp)
    have hmet := (h.interrupted_succ hm ho hr hnext).2 (.inr (.inl hafter))
    exact .inl ⟨n + 1, (h.go_on hpass ho hr hnext).ends hmet _⟩
  | case6 n log now hreached hbefore report r hresult hafter ih =>
    obtain ⟨ho, hr, hnext⟩ := stepPhase_stepped hresult
    have hi : ¬ d.Interrupted limit n := mt hw.1 (not_or.2 ⟨hreached, hbefore⟩)
    have hpass := h.not_stops hi (by rw [ho]; simp)
    refine ih (h.go_on hpass ho hr hnext) ((h.interrupted_succ hm ho hr hnext).trans ?_)
    -- the check after the phase found nothing
    simp [report, show now.stepPhase.debugger.stopsAfter r = false from Bool.eq_false_iff.2 hafter]

/-- The ways a run can end. -/
def Concludes (d : Debugger τ) (limit : Option Int) (report : Report τ Nat) : Prop :=
  (∃ k, d.EndsAfter limit k report) ∨ ∃ k f, d.FailsAfter limit k f report

theorem concludes_run (hm : d.machine.Reachable) (limit : Option Int) :
    d.Concludes limit (d.run limit) :=
  runFrom_ends hm (passed_start d limit) (watched_start d limit) []

/-- Take any machine that a setup can come to, any breakpoints and any limit. A run ends after the least
number of phases that reaches the limit, meets an enabled breakpoint or leaves no phase, in the state of
as many plain steps, but idle if only the end of the program stopped it; each of these steps added a
record, and the last record is that of the last of them. Else one of the plain steps before that fails,
and the run fails with it, in its state. A machine that is not strict, with a program of well-typed
instructions whose integers can all be written, has no such step. Without a limit and enabled
breakpoints, a run ends at the end of the program. -/
theorem run_stops (hm : d.machine.Reachable) (limit : Option Int) :
    ((∃ n, d.EndsAfter limit n (d.run limit)) ∨ ∃ n f, d.FailsAfter limit n f (d.run limit)) ∧
    (d.machine.strict = false → (∀ i ∈ d.machine.program, i.WellTyped ∧ i.Writable) →
      ∃ n, d.EndsAfter limit n (d.run limit)) ∧
    (limit = none → (∀ b ∈ d.breakpoints, b.enabled = false) → ∀ n, d.EndsAfter limit n (d.run limit) →
      (d.machine.steps n).nextPhase = .idle) := by
  have hrun := runFrom_ends hm (passed_start d limit) (watched_start d limit) []
  refine ⟨hrun, fun hsoft hp => hrun.resolve_right ?_, ?_⟩
  · rintro ⟨n, f, hfails⟩
    have hnever : d.machine.Faultless := fun i hi =>
      ⟨(hp i hi).1, (hp i hi).2.shown, .inr ⟨hsoft, (hp i hi).2.2.2⟩⟩
    exact (hnever.steps hm.sound n).step f hfails.failed
  · rintro rfl hoff n hends
    rcases hends.least.1 with (⟨most, hmost, -⟩ | ⟨-, r, -, b, hb, hmet⟩) | hidle
    · cases hmost
    · have hon := hmet.1
      rw [hoff b hb] at hon
      cases hon
    · exact hidle

/-- A run that is to stop at the second instruction, and would have at a change of the register before it
if the breakpoint for that were enabled. -/
def watched : Debugger Rat :=
  { attach ((Machine.small false false).load Machine.stoppingProgram) with
    breakpoints := [{ kind := .registerChange, register := some "R1", enabled := false },
      { kind := .instructionIndex, value := some 1 }] }

theorem run_stops_watched :
    watched.EndsAfter none 4 (watched.run none) ∧
      (watched.run none).debugger.machine = watched.machine.steps 4 := by
  have hm : watched.machine.Reachable := (Machine.reachable_small false false).perform (.load _)
  have hp : ∀ i ∈ watched.machine.program, i.WellTyped ∧ i.Writable := by decide +kernel
  obtain ⟨n, hends⟩ := (run_stops hm none).2.1 rfl hp
  have hfour : (watched.run none).result.toOption = some 4 := by decide +kernel
  rw [hends.result] at hfour
  obtain rfl : n = 4 := Option.some.inj hfour
  have hnext : (watched.machine.steps 4).nextPhase = .at .fetch := by decide +kernel
  refine ⟨hends, hends.interrupted (hends.least.1.resolve_right ?_)⟩
  rw [hnext]
  simp

/-- A debugger on a program whose instruction cannot be shown in assembly. -/
def overlong : Debugger Rat :=
  attach ((Machine.small false false).load Machine.longProgram)

/-- With a limit of one phase, its run should end after one phase, but fails. -/
theorem run_fails_overlong :
    overlong.machine.Reachable ∧ overlong.machine.strict = false ∧
    (∀ i ∈ overlong.machine.program, i.WellTyped) ∧
    IsLeast {k | overlong.Stops (some 1) k} 1 ∧
    (overlong.run (some 1)).result = .error (.misuse .unwritable) ∧
    ¬ ∃ n, overlong.EndsAfter (some 1) n (overlong.run (some 1)) := by
  have hresult : (overlong.run (some 1)).result = .error (.misuse .unwritable) := by decide +kernel
  refine ⟨(Machine.reachable_small false false).perform (.load _), rfl, by decide, ⟨?_, fun k hk => ?_⟩,
    hresult, ?_⟩
  · exact .inl (.inl ⟨1, rfl, le_refl _⟩)
  · by_contra hlt
    obtain rfl : k = 0 := by omega
    rcases hk with (⟨most, hmost, hle⟩ | ⟨hpos, -⟩) | hidle
    · cases hmost
      exact absurd hle (by decide)
    · exact absurd hpos (by decide)
    · revert hidle
      decide +kernel
  · rintro ⟨n, hends⟩
    rw [hends.result] at hresult
    cases hresult

end PhaseMachine.Debugger
