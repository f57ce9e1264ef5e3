/-
A reset is complete: after it a machine answers, fails and shows as one that is newly made from the
same setup with the present duration of steps at the present reading of the clock, through any further
operations. The timers of before are gone, and what is left of them, the count of their numbers and of
epochs, does not show.
-/
import PhaseMachine.Machine.Snapshot
import PhaseMachine.Proofs.Machine.Soundness
import PhaseMachine.Proofs.Machine.Twin

namespace PhaseMachine.Machine

variable {τ : Type}

/-! ## What shows of a machine -/

inductive Answer where
  | done
  | refused (r : Refusal)
  | ended (o : Outcome)
  | ran (count : Nat)
deriving DecidableEq, Repr

/-- What shows of an operation: its answer, and what can be asked of the machine after it. -/
structure Sight (τ : Type) where
  answer : Answer
  snapshot : Snapshot τ
  nextPhase : Phase
  index : Nat
  pending : Nat

variable [Quantity τ]

def answer (m : Machine τ) : Op τ → Answer
  | .step => .ended m.step.outcome
  | .setDuration ms =>
    match m.setDuration ms with
    | .ok _ => .done
    | .error r => .refused r
  | .poll => .ran m.due.length
  | .load _ | .reset | .advance _ => .done

def sight (m : Machine τ) (op : Op τ) : Sight τ :=
  let n := m.perform op
  {
    answer := m.answer op, snapshot := n.snapshot, nextPhase := n.nextPhase, index := n.index
    pending := n.timers.pending
  }

/-- What shows of operations in order. -/
def sights (m : Machine τ) : List (Op τ) → List (Sight τ)
  | [] => []
  | op :: ops => m.sight op :: (m.perform op).sights ops

/-! ## Twins look alike -/

omit [Quantity τ] in
theorem pending_twin (m : Machine τ) {strict : Bool} {numbers epochs : Nat} :
    (m.twin strict numbers epochs).timers.pending = m.timers.pending :=
  m.timers.pending_renumber

theorem answer_twin (m : Machine τ) {numbers epochs : Nat} (op : Op τ) :
    (m.twin m.strict numbers epochs).answer op = m.answer op := by
  cases op with
  | step =>
    unfold answer
    rw [(step_twin fun i _ => rfl).1]
  | setDuration ms =>
    unfold answer
    dsimp only
    rw [setDuration_twin]
    cases m.setDuration ms <;> rfl
  | poll =>
    unfold answer
    rw [due_twin, List.length_map]
  | load program => rfl
  | reset => rfl
  | advance ms => rfl

/-- Twins of one strictness show the same for ever. -/
theorem sights_twin (m : Machine τ) (numbers epochs : Nat) (ops : List (Op τ)) :
    (m.twin m.strict numbers epochs).sights ops = m.sights ops := by
  induction ops generalizing m with
  | nil => rfl
  | cons op ops ih =>
    have hnext : (m.twin m.strict numbers epochs).perform op =
        (m.perform op).twin (m.perform op).strict numbers epochs := by
      rw [strict_perform]
      exact perform_twin fun _ i _ => rfl
    unfold sights sight
    dsimp only
    rw [answer_twin, hnext, ih, pending_twin]
    rfl

/-! ## What a machine keeps of its setup -/

/-- The bus log gives transfers the lifetime that goes with the duration of steps. -/
structure Timed (m : Machine τ) : Prop where
  lifetime : m.bus.lifetime = BusLog.lifetimeFor m.stepDuration
  allowed : ¬ m.stepDuration < Quantity.zero

theorem timed_of_setup {s : Setup τ} {clock : τ} {m : Machine τ} (h : ofSetup s clock = .ok m) : m.Timed := by
  obtain ⟨-, -, hm⟩ := ofSetup_ok h
  unfold ofSetup at h
  split at h
  · cases h
  · split at h
    · cases h
    · next hd =>
      rw [hm]
      exact ⟨rfl, hd⟩

theorem lifetime_sendAll (m : Machine τ) (signals : List Signal) :
    (m.sendAll signals).bus.lifetime = m.bus.lifetime := by
  induction signals generalizing m with
  | nil => rfl
  | cons s rest ih => exact ih (m.send s)

theorem lifetime_carry (m : Machine τ) (i : Instruction) (e : Effect) :
    (m.carry i e).bus.lifetime = m.bus.lifetime := by
  have hs := lifetime_sendAll { m with storage := e.storage, pc := m.pcAfter, ir := m.irAfter i } e.signals
  unfold carry
  dsimp only
  split
  · exact hs
  · exact hs

theorem lifetime_step (m : Machine τ) : m.step.machine.bus.lifetime = m.bus.lifetime := by
  rcases m.step_cases with ⟨-, -, hs⟩ | ⟨i, f, -, -, -, hs⟩ | ⟨i, e, text, -, -, -, -, hs⟩ |
    ⟨i, e, u, -, -, -, -, hs⟩
  · rw [hs]
  · rw [hs]; rfl
  · obtain ⟨index, stage, hp⟩ := (m.enter.recorded i e).proceed_eq
    rw [hs, hp]
    exact m.enter.lifetime_carry i e
  · rw [hs]
    exact m.enter.lifetime_carry i e

omit [Quantity τ] in
theorem lifetime_fires (m : Machine τ) (ts : List (Task τ Timer)) :
    (ts.foldl (fun m t => m.fire t.payload) m).bus.lifetime = m.bus.lifetime := by
  induction ts generalizing m with
  | nil => rfl
  | cons t ts ih =>
    rw [List.foldl_cons, ih]
    cases t.payload <;> rfl

theorem duration_step (m : Machine τ) : m.step.machine.stepDuration = m.stepDuration := by
  rcases m.step_machine with ⟨-, h⟩ | ⟨i, f, -, -, h⟩ | ⟨i, e, index, stage, bus, timers, -, -, h⟩
  · rw [h]
  · rw [h]; rfl
  · rw [h]; rfl

theorem Timed.perform {m : Machine τ} (h : m.Timed) (op : Op τ) : (m.perform op).Timed := by
  cases op with
  | load program => exact ⟨h.lifetime, h.allowed⟩
  | reset => exact ⟨h.lifetime, h.allowed⟩
  | advance ms => exact ⟨h.lifetime, h.allowed⟩
  | step =>
    refine ⟨?_, ?_⟩
    · show m.step.machine.bus.lifetime = BusLog.lifetimeFor m.step.machine.stepDuration
      rw [lifetime_step, duration_step]
      exact h.lifetime
    · show ¬ m.step.machine.stepDuration < Quantity.zero
      rw [duration_step]
      exact h.allowed
  | setDuration ms =>
    unfold Machine.perform setDuration
    dsimp only
    split
    · exact h
    · next hd => exact ⟨rfl, hd⟩
  | poll =>
    have hl : m.poll.bus.lifetime = m.bus.lifetime := lifetime_fires _ _
    obtain ⟨bus, timers, cache, hp, -⟩ := m.poll_eq
    have hd : m.poll.stepDuration = m.stepDuration := by rw [hp]
    refine ⟨?_, ?_⟩
    · show m.poll.bus.lifetime = BusLog.lifetimeFor m.poll.stepDuration
      rw [hl, hd]
      exact h.lifetime
    · show ¬ m.poll.stepDuration < Quantity.zero
      rw [hd]
      exact h.allowed

/-- What a machine keeps of the setup it was made from. -/
structure Keeps (m : Machine τ) (s : Setup τ) : Prop where
  controls : s.missing? = none
  blank : s.blank = .ok m.blank
  strict : m.strict = s.strict
  timed : m.Timed

theorem keeps_after {s : Setup τ} {clock : τ} {made : Machine τ} (h : ofSetup s clock = .ok made)
    (ops : List (Op τ)) : (made.after ops).Keeps s := by
  have hmade : made.Keeps s := by
    obtain ⟨hc, hb, hm⟩ := ofSetup_ok h
    exact ⟨hc, hb, by rw [hm], timed_of_setup h⟩
  refine after_of_perform (P := fun m => m.Keeps s) (fun m op hm (_ : True) => ?_) hmade fun _ _ => trivial
  refine ⟨hm.controls, ?_, ?_, hm.timed.perform op⟩
  · rw [blank_perform]
    exact hm.blank
  · rw [strict_perform]
    exact hm.strict

/-! ## Reset -/

/-- A machine can be made anew with the present duration at the present reading of the clock, and reset
leaves a twin of it. -/
theorem Keeps.fresh {m : Machine τ} {s : Setup τ} (h : m.Keeps s) :
    ∃ fresh, ofSetup { s with stepDuration := m.stepDuration } m.clock = .ok fresh ∧
      m.reset = fresh.twin fresh.strict m.timers.nextSeq (m.timers.epoch + 1) := by
  have hmissing : ({ s with stepDuration := m.stepDuration } : Setup τ).missing? = none := h.controls
  have hblank : ({ s with stepDuration := m.stepDuration } : Setup τ).blank = .ok m.blank := h.blank
  refine ⟨{ blank := m.blank, strict := s.strict, stepDuration := m.stepDuration, storage := m.blank
            bus := { lifetime := BusLog.lifetimeFor m.stepDuration }, clock := m.clock }, ?_, ?_⟩
  · unfold ofSetup
    rw [hmissing, hblank]
    dsimp only
    rw [if_neg h.timed.allowed]
    rfl
  · -- of the old timers only the two counts are left
    unfold reset twin Scheduler.renumber Scheduler.advanceEpoch BusLog.clear
    dsimp only
    rw [h.strict, h.timed.lifetime, Array.map_empty, Nat.zero_add, Nat.zero_add]

/-- Take any machine that came of a setup through any operations. A new machine of the same registers,
memory size, cache sizes, demotion and strictness, with the step duration that is currently set and the
same reading of the clock, can be made; right after a reset the first machine shows the same as the
new one, and so do both through all later operations: the same answers and failures, the same counts of
tasks that polls ran and of pending ones, and the same snapshots. -/
theorem reset_complete {s : Setup τ} {clock : τ} {made : Machine τ} (h : ofSetup s clock = .ok made)
    (before : List (Op τ)) :
    ∃ fresh,
      ofSetup { s with stepDuration := (made.after before).stepDuration } (made.after before).clock =
        .ok fresh ∧
      (made.after before).reset.snapshot = fresh.snapshot ∧
      (made.after before).reset.nextPhase = fresh.nextPhase ∧
      (made.after before).reset.timers.pending = fresh.timers.pending ∧
      ∀ later, (made.after before).reset.sights later = fresh.sights later := by
  obtain ⟨fresh, hfresh, hreset⟩ := (keeps_after h before).fresh
  refine ⟨fresh, hfresh, ?_, ?_, ?_, fun later => ?_⟩
  · rw [hreset]; rfl
  · rw [hreset]; rfl
  · rw [hreset]; exact pending_twin fresh
  · rw [hreset]; exact fresh.sights_twin _ _ later

/-- The demoting run is left with timers pending, after the duration was changed; then a new program runs
for a while and is polled. -/
def resetRun : List (Op Rat) :=
  demotingRun ++ [.setDuration 10, .advance 600]

def afterReset : List (Op Rat) :=
  [.load [{ opcode := .load, destination := .given "R1", address := .given 2 }], .step, .step, .step,
    .setDuration (-1), .advance 510, .poll, .step, .step]

/-- The timers of the demoting run do not go off after the reset; the four of the new program do. -/
theorem reset_complete_demoting :
    let m := (small true false).after resetRun
    m.timers.pending = 20 ∧ m.reset.timers.pending = 0 ∧
    (m.reset.sights afterReset).map (·.answer) =
      [.done, .ended .stepped, .ended .stepped, .ended .stepped, .refused .negativeDuration, .done, .ran 4,
        .ended .stepped, .ended .finished] ∧
    ∃ fresh, ofSetup ({ Setup.small true false with stepDuration := 10 } : Setup Rat) 600 = .ok fresh ∧
      ∀ later, m.reset.sights later = fresh.sights later := by
  intro m
  obtain ⟨fresh, hfresh, -, -, hpending, hlater⟩ := reset_complete (ofSetup_small true false) resetRun
  have hd : m.stepDuration = 10 := by decide +kernel
  have hc : m.clock = 600 := by decide +kernel
  rw [show (small true false).after resetRun = m from rfl, hd, hc] at hfresh
  refine ⟨by decide +kernel, ?_, by decide +kernel, fresh, hfresh, hlater⟩
  decide +kernel

end PhaseMachine.Machine
