/-
Runs in a row. A run looks only at limit, breakpoints and program from where it starts, so a run that goes
on after a limit ends as one run with both limits would. The exception is the place between the two: a run
does not check a breakpoint on the instruction that it starts with, and so the second run passes over one
at which the single run stops.
-/
import PhaseMachine.Proofs.Debugger.Run

namespace PhaseMachine

theorem Machine.steps_add {τ : Type} [Quantity τ] (m : Machine τ) (j k : Nat) :
    m.steps (j + k) = (m.steps j).steps k := by
  induction k with
  | zero => rfl
  | succ k ih => exact congrArg (fun n : Machine τ => n.step.machine) ih

namespace Debugger

variable {τ : Type} [Quantity τ]

/-! ## The end of a run -/

/-- Two runs end alike: with the same result and in the same state of the machine. -/
structure Agrees (a b : Report τ Nat) : Prop where
  result : a.result = b.result
  machine : a.debugger.machine = b.debugger.machine
  last : a.debugger.last = b.debugger.last

/-- The report with a number of phases from before counted in. -/
def Report.following (report : Report τ Nat) (m : Nat) : Report τ Nat :=
  { report with result := report.result.map (m + ·) }

/-- A run with a limit and another one after it, with their phases counted together. -/
def runTwice (d : Debugger τ) (m n : Nat) : Report τ Nat :=
  ((d.run (some m)).debugger.run (some n)).following m

variable {d e : Debugger τ} {limit : Option Int}

/-- A run that ends does not fail. -/
theorem EndsAfter.not_fails {j k : Nat} {f : Failure} {a b : Report τ Nat} (ha : d.EndsAfter limit j a)
    (hb : d.FailsAfter limit k f b) : False := by
  rcases Nat.lt_or_ge k j with hlt | hge
  · have hstepped := ha.carried k hlt
    rw [hb.failed] at hstepped
    cases hstepped
  · exact hb.passed j hge ha.least.1

theorem EndsAfter.agrees {j k : Nat} {a b : Report τ Nat} (ha : d.EndsAfter limit j a)
    (hb : d.EndsAfter limit k b) : Agrees a b := by
  obtain rfl := ha.least.unique hb.least
  refine ⟨ha.result.trans hb.result.symm, ?_, ha.last.trans hb.last.symm⟩
  by_cases hi : d.Interrupted limit j
  · exact (ha.interrupted hi).trans (hb.interrupted hi).symm
  · exact (ha.finished hi).trans (hb.finished hi).symm

theorem FailsAfter.agrees {j k : Nat} {f g : Failure} {a b : Report τ Nat} (ha : d.FailsAfter limit j f a)
    (hb : d.FailsAfter limit k g b) : Agrees a b := by
  -- the steps before a failing one do not fail
  have hle : ∀ {j k : Nat} {f g : Failure} {a b : Report τ Nat}, d.FailsAfter limit j f a →
      d.FailsAfter limit k g b → k ≤ j := by
    intro j k f g a b ha hb
    by_contra hlt
    have hstepped := hb.carried j (not_le.1 hlt)
    rw [ha.failed] at hstepped
    cases hstepped
  obtain rfl := le_antisymm (hle hb ha) (hle ha hb)
  have hf := ha.failed.symm.trans hb.failed
  cases hf
  exact ⟨ha.result.trans hb.result.symm, ha.machine.trans hb.machine.symm, ha.last.trans hb.last.symm⟩

/-- What a run comes to is determined by machine, breakpoints and limit. -/
theorem Concludes.agrees {a b : Report τ Nat} (ha : d.Concludes limit a) (hb : d.Concludes limit b) :
    Agrees a b := by
  rcases ha with ⟨j, ha⟩ | ⟨j, f, ha⟩
  · rcases hb with ⟨k, hb⟩ | ⟨k, g, hb⟩
    · exact ha.agrees hb
    · exact (ha.not_fails hb).elim
  · rcases hb with ⟨k, hb⟩ | ⟨k, g, hb⟩
    · exact (hb.not_fails ha).elim
    · exact ha.agrees hb

/-! ## Going on -/

/-- A breakpoint is set on the instruction that comes next. -/
def Marked (d : Debugger τ) : Prop :=
  d.machine.nextPhase = .at .fetch ∧ ∃ b ∈ d.breakpoints,
    b.enabled = true ∧ b.kind = .instructionIndex ∧ b.value = some (d.machine.index : Int)

/-- A run comes to its limit, and its last phase meets no breakpoint of those that look at a phase. -/
def EndsAtLimit (d : Debugger τ) (m : Nat) : Prop :=
  (d.run (some m)).result = .ok m ∧
    ∀ r ∈ (d.run (some m)).debugger.machine.history.getLast?, ∀ b ∈ d.breakpoints,
      b.kind ≠ .instructionIndex → ¬ b.Met (d.run (some m)).debugger.machine r

variable {later : Option Int} {m : Nat}

namespace Passed

theorem stops_add_iff (h : d.Passed limit m e) {k : Nat}
    (hi : d.Interrupted limit (m + k) ↔ e.Interrupted later k) :
    d.Stops limit (m + k) ↔ e.Stops later k := by
  unfold Stops
  rw [hi, h.machine, Machine.steps_add]

theorem lastAfter_add (h : d.Passed limit m e) (k : Nat) : e.lastAfter k = d.lastAfter (m + k) := by
  cases k with
  | zero => exact h.last
  | succ k =>
    unfold lastAfter
    rw [if_neg k.succ_ne_zero, if_neg (by omega), h.machine, ← Machine.steps_add]

theorem carried_add (h : d.Passed limit m e) {k : Nat}
    (hk : ∀ i < k, (e.machine.steps i).step.outcome = .stepped) :
    ∀ j < m + k, (d.machine.steps j).step.outcome = .stepped := by
  intro j hj
  rcases Nat.lt_or_ge j m with hlt | hge
  · exact h.carried j hlt
  · obtain ⟨i, rfl⟩ := Nat.exists_eq_add_of_le hge
    rw [Machine.steps_add, ← h.machine]
    exact hk i (by omega)

section Following

variable (h : d.Passed limit m e) (hi : ∀ k, d.Interrupted limit (m + k) ↔ e.Interrupted later k)
include h hi

theorem ends_following {k : Nat} {report : Report τ Nat} (hr : e.EndsAfter later k report) :
    d.EndsAfter limit (m + k) (report.following m) := by
  have hstate : e.machine.steps k = d.machine.steps (m + k) := by rw [h.machine, Machine.steps_add]
  have hcarried := h.carried_add hr.carried
  refine ⟨⟨(h.stops_add_iff (hi k)).2 hr.least.1, fun j hj => ?_⟩, hcarried, Machine.history_steps hcarried,
    ?_, fun hyes => ?_, fun hno => ?_, ?_, ?_, hr.running⟩
  · by_contra hlt
    rcases Nat.lt_or_ge j m with hjm | hjm
    · exact h.passed j hjm hj
    · obtain ⟨i, rfl⟩ := Nat.exists_eq_add_of_le hjm
      have hki := hr.least.2 ((h.stops_add_iff (hi i)).1 hj)
      omega
  · show report.result.map (m + ·) = _
    rw [hr.result]
    rfl
  · rw [← hstate]
    exact hr.interrupted ((hi k).1 hyes)
  · rw [← hstate]
    exact hr.finished fun hyes => hno ((hi k).2 hyes)
  · rw [← h.lastAfter_add]
    exact hr.last
  · rw [← h.breakpoints]
    exact hr.breakpoints

theorem fails_following {k : Nat} {f : Failure} {report : Report τ Nat}
    (hr : e.FailsAfter later k f report) : d.FailsAfter limit (m + k) f (report.following m) := by
  have hstate : ∀ k, e.machine.steps k = d.machine.steps (m + k) := by
    intro k
    rw [h.machine, Machine.steps_add]
  refine ⟨fun j hj => ?_, h.carried_add hr.carried, ?_, ?_, ?_, ?_, ?_⟩
  · rcases Nat.lt_or_ge j m with hjm | hjm
    · exact h.passed j hjm
    · obtain ⟨i, rfl⟩ := Nat.exists_eq_add_of_le hjm
      rw [h.stops_add_iff (hi i)]
      exact hr.passed i (by omega)
  · rw [← hstate]
    exact hr.failed
  · show report.result.map (m + ·) = _
    rw [hr.result]
    rfl
  · rw [Nat.add_assoc, ← hstate]
    exact hr.machine
  · rw [← h.lastAfter_add]
    exact hr.last
  · rw [← h.breakpoints]
    exact hr.breakpoints

/-- Where the rest of a run sees the same interruptions as a run of its own, it ends as that does. -/
theorem concludes_following {report : Report τ Nat} (hr : e.Concludes later report) :
    d.Concludes limit (report.following m) := by
  rcases hr with ⟨k, hr⟩ | ⟨k, f, hr⟩
  · exact .inl ⟨m + k, h.ends_following hi hr⟩
  · exact .inr ⟨m + k, f, h.fails_following hi hr⟩

end Following

end Passed

/-! ## A run after a limit -/

variable {n : Nat}

/-- Up to the limit nothing stops a run with a later limit. -/
theorem EndsAtLimit.passed (hm : d.machine.Reachable) (h : d.EndsAtLimit m) :
    d.Passed (some ↑(m + n)) m (d.run (some m)).debugger := by
  rcases concludes_run hm (some (m : Int)) with ⟨k, hends⟩ | ⟨k, f, hfails⟩
  · obtain rfl : m = k := by
      have hk := hends.result
      rw [h.1] at hk
      exact Except.ok.inj hk
    have hlimit : d.Interrupted (some m) m := .inl ⟨m, rfl, le_refl _⟩
    refine ⟨hends.interrupted hlimit, hends.breakpoints, hends.last, hends.carried, fun k hk hs => ?_⟩
    refine absurd (hends.least.2 (show d.Stops (some m) k from ?_)) (not_le.2 hk)
    rcases hs with (⟨most, hmost, hle⟩ | hmet) | hidle
    · obtain rfl := Option.some.inj hmost
      omega
    · exact .inl (.inr hmet)
    · exact .inr hidle
  · have hf := hfails.result
    rw [h.1] at hf
    cases hf

/-- Where the first run ends, a single one is interrupted exactly by a breakpoint on the next instruction. -/
theorem EndsAtLimit.interrupted_iff (hm : d.machine.Reachable) (h : d.EndsAtLimit m) (hpos : 0 < m)
    (hn : 0 < n) : d.Interrupted (some ↑(m + n)) m ↔ (d.run (some m)).debugger.Marked := by
  have hp := h.passed (n := n) hm
  have hunmet := h.2
  unfold Marked
  rw [hp.breakpoints]
  rw [hp.machine] at hunmet ⊢
  constructor
  · rintro (⟨most, hmost, hle⟩ | ⟨-, r, hr, b, hb, hmet⟩)
    · obtain rfl := Option.some.inj hmost
      omega
    · have hkind : b.kind = .instructionIndex := by
        by_contra hother
        exact hunmet r hr b hb hother hmet
      obtain ⟨hon, hholds⟩ := hmet
      unfold Breakpoint.Holds at hholds
      rw [hkind] at hholds
      exact ⟨hholds.1, b, hb, hon, hkind, hholds.2⟩
  · rintro ⟨hfetch, b, hb, hon, hkind, hvalue⟩
    obtain ⟨records, hlen, hhistory⟩ := Machine.history_steps hp.carried
    have hne : (d.machine.steps m).history ≠ [] := by
      rw [hhistory]
      intro hnil
      rw [(List.append_eq_nil_iff.1 hnil).2] at hlen
      exact hpos.ne hlen
    refine .inr ⟨hpos, _, List.getLast?_eq_some_getLast hne, b, hb, hon, ?_⟩
    unfold Breakpoint.Holds
    rw [hkind]
    exact ⟨hfetch, hvalue⟩

/-- After that, the limits are as far away, and the breakpoints look at the same phases. -/
theorem Passed.interrupted_add_iff (hp : d.Passed (some ↑(m + n)) m e) {k : Nat} (hk : 0 < k) :
    d.Interrupted (some ↑(m + n)) (m + k) ↔ e.Interrupted (some n) k := by
  unfold Interrupted
  rw [hp.machine, hp.breakpoints, Machine.steps_add]
  refine or_congr ?_ (and_congr (by omega) Iff.rfl)
  simp only [Option.mem_some_iff, exists_eq_left']
  omega

theorem not_interrupted_zero (hn : 0 < n) : ¬ e.Interrupted (some n) 0 := by
  rintro (⟨most, hmost, hle⟩ | ⟨hlt, -⟩)
  · obtain rfl := Option.some.inj hmost
    omega
  · exact absurd hlt (Nat.lt_irrefl 0)

/-- A run that starts at an instruction carries out a phase, or fails. -/
theorem Concludes.pos {report : Report τ Nat} (h : e.Concludes (some n) report) (hn : 0 < n)
    (hfetch : e.machine.nextPhase = .at .fetch) {k : Nat} (hk : report.result = .ok k) : 0 < k := by
  rcases h with ⟨j, hends⟩ | ⟨j, f, hfails⟩
  · rw [hends.result] at hk
    obtain rfl := Except.ok.inj hk
    refine Nat.pos_of_ne_zero fun hzero => ?_
    subst hzero
    rcases hends.least.1 with hi | hidle
    · exact not_interrupted_zero hn hi
    · rw [show (e.machine.steps 0).nextPhase = _ from hfetch] at hidle
      cases hidle
  · rw [hfails.result] at hk
    cases hk

/-- At a breakpoint on the next instruction a single run ends, and the second of two runs goes on. -/
theorem EndsAtLimit.of_marked (hm : d.machine.Reachable) (h : d.EndsAtLimit m) (hpos : 0 < m) (hn : 0 < n)
    (hmark : (d.run (some m)).debugger.Marked) :
    (d.run (some ↑(m + n))).result = .ok m ∧
      (d.run (some ↑(m + n))).debugger.machine = (d.run (some m)).debugger.machine ∧
      ∀ k, (d.runTwice m n).result = .ok k → m < k := by
  have hp := h.passed (n := n) hm
  have hreach : (d.run (some m)).debugger.machine.Reachable := hp.machine ▸ hm.steps m
  have hagree := (concludes_run hm (some ↑(m + n))).agrees
    (.inl ⟨m, hp.ends ((h.interrupted_iff hm hpos hn).2 hmark) []⟩)
  refine ⟨hagree.result, hagree.machine, fun k hk => ?_⟩
  unfold runTwice Report.following at hk
  cases hsecond : ((d.run (some m)).debugger.run (some n)).result with
  | error f =>
    rw [hsecond] at hk
    cases hk
  | ok j =>
    rw [hsecond] at hk
    have hj := (concludes_run hreach (some (n : Int))).pos hn hmark.1 hsecond
    have hsum : m + j = k := Except.ok.inj hk
    omega

/-- Take any machine that a setup can come to and any breakpoints, and let a run come to its limit without
its last phase meeting a breakpoint. With a second run after it the machine ends in the same state, after
as many phases in total, as with a single run up to both limits together, exactly if no enabled breakpoint
is set on the instruction that comes next between the two. If there is one, the single run ends there, and
the second of the two passes over it. -/
theorem runTwice_agrees_iff (hm : d.machine.Reachable) (hpos : 0 < m) (hn : 0 < n) (h : d.EndsAtLimit m) :
    (Agrees (d.runTwice m n) (d.run (some ↑(m + n))) ↔ ¬ (d.run (some m)).debugger.Marked) ∧
    ((d.run (some m)).debugger.Marked →
      (d.run (some ↑(m + n))).result = .ok m ∧
      (d.run (some ↑(m + n))).debugger.machine = (d.run (some m)).debugger.machine ∧
      ∀ k, (d.runTwice m n).result = .ok k → m < k) := by
  refine ⟨⟨fun hagree hmark => ?_, fun hmark => ?_⟩, h.of_marked hm hpos hn⟩
  · obtain ⟨hresult, -, hmore⟩ := h.of_marked (n := n) hm hpos hn hmark
    exact Nat.lt_irrefl m (hmore m (hagree.result.trans hresult))
  · have hp := h.passed (n := n) hm
    have hreach : (d.run (some m)).debugger.machine.Reachable := hp.machine ▸ hm.steps m
    have hsame : ∀ k, d.Interrupted (some ↑(m + n)) (m + k) ↔
        (d.run (some m)).debugger.Interrupted (some n) k := by
      intro k
      cases k with
      | zero => exact iff_of_false (mt (h.interrupted_iff hm hpos hn).1 hmark) (not_interrupted_zero hn)
      | succ k => exact hp.interrupted_add_iff k.succ_pos
    exact (hp.concludes_following hsame (concludes_run hreach _)).agrees (concludes_run hm _)

/-- A debugger on a program that is to stop at the second instruction. -/
def halting : Debugger Rat :=
  { attach ((Machine.small false false).load Machine.stoppingProgram) with
    breakpoints := [{ kind := .instructionIndex, value := some 1 }] }

theorem reachable_halting : halting.machine.Reachable :=
  (Machine.reachable_small false false).perform (.load _)

/-- A limit within the first instruction makes no difference. -/
theorem runTwice_agrees_iff_halting :
    halting.EndsAtLimit 3 ∧ (halting.run (some 7)).result = .ok 4 ∧
      Agrees (halting.runTwice 3 4) (halting.run (some 7)) := by
  have hlimit : halting.EndsAtLimit 3 := by
    refine ⟨by decide +kernel, fun r _ b hb hkind => ?_⟩
    obtain rfl := List.mem_singleton.1 hb
    exact absurd rfl hkind
  have hstage : (halting.run (some 3)).debugger.machine.nextPhase = .at .store := by decide +kernel
  refine ⟨hlimit, by decide +kernel, ?_⟩
  refine (runTwice_agrees_iff reachable_halting (by decide) (by decide) hlimit (n := 4)).1.2 ?_
  rintro ⟨hfetch, -⟩
  have hother := hstage.symm.trans hfetch
  cases hother

/-- With a limit at the end of the first instruction, the second run passes over the breakpoint that a
single run stops at. -/
theorem runTwice_passes_over :
    halting.machine.Reachable ∧ halting.machine.strict = false ∧ halting.EndsAtLimit 4 ∧
      (halting.run (some 4)).debugger.machine.nextPhase = .at .fetch ∧
      (halting.run (some 8)).result = .ok 4 ∧ (halting.runTwice 4 4).result = .ok 8 ∧
      ¬ Agrees (halting.runTwice 4 4) (halting.run (some 8)) := by
  have htwice : (halting.runTwice 4 4).result = .ok 8 := by decide +kernel
  have hsingle : (halting.run (some 8)).result = .ok 4 := by decide +kernel
  refine ⟨reachable_halting, by decide +kernel, ⟨by decide +kernel, fun r _ b hb hkind => ?_⟩,
    by decide +kernel, hsingle, htwice, fun hagree => ?_⟩
  · obtain rfl := List.mem_singleton.1 hb
    exact absurd rfl hkind
  · have hcounts := hagree.result
    rw [htwice, hsingle] at hcounts
    cases hcounts

end Debugger

end PhaseMachine
