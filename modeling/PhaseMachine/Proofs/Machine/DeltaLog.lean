/-
The history as a delta log. What registers and memory hold is what they held when the history started
over last, with all changes in the history made in order, and each change names the value that it
found. A step that stops before its stage, and a malformed instruction that is passed over, change
nothing and add no change to the log.
-/
import PhaseMachine.Proofs.Machine.Soundness

namespace PhaseMachine.Machine

open Change

variable {τ : Type}

/-! ## The log -/

def changes (m : Machine τ) : List Change :=
  m.history.flatMap Record.changes

/-- The record of a stage has the changes of its work. -/
theorem changes_entry (m : Machine τ) (i : Instruction) (e : Effect) : (m.entry i e).changes = e.changes :=
  rfl

/-! ## Where the log starts from -/

variable [Quantity τ]

/-- What registers and memory held when the history started over last, through operations on a machine
whose history started from `v`. -/
def originFrom (v : Values) (m : Machine τ) : List (Op τ) → Values
  | [] => v
  | op :: ops =>
    originFrom (if op.restarts then (m.perform op).storage.values else v) (m.perform op) ops

/-- The same for a machine as it is made, whose history starts from what it holds. -/
def origin (m : Machine τ) (ops : List (Op τ)) : Values :=
  m.originFrom m.storage.values ops

/-! ## One operation -/

theorem history_restart {m : Machine τ} {op : Op τ} (h : op.restarts = true) : (m.perform op).history = [] := by
  cases op with
  | load program => rfl
  | reset => rfl
  | step => cases h
  | setDuration ms => cases h
  | advance ms => cases h
  | poll => cases h

/-- The history of a step leads on from the values before it to the values after it. -/
theorem leads_step {m : Machine τ} (hm : m.Sound) {v : Values} (h : Leads v m.changes m.storage.values) :
    Leads v m.step.machine.changes m.step.machine.storage.values := by
  unfold changes at h ⊢
  rcases m.step_effect with ⟨hs, hh⟩ | ⟨i, e, -, hw, hs, hh⟩
  · rw [hs, hh]
    exact h
  · have he := (work_faithful (m := m.enter) (hm.mem_names (by decide)) hw).leads
    rw [hs, hh, List.flatMap_append, List.flatMap_singleton, changes_entry]
    exact h.append he

/-- Operations other than load and reset carry an exact history on. -/
theorem leads_perform {m : Machine τ} (hm : m.Sound) {v : Values} {op : Op τ} (ho : op.restarts = false)
    (h : Leads v m.changes m.storage.values) :
    Leads v (m.perform op).changes (m.perform op).storage.values := by
  rcases Op.step_or_between ho with rfl | hb
  · exact leads_step hm h
  · have hv := (m.still_between hb).values
    obtain ⟨stepDuration, bus, timers, clock, cache, he, -⟩ := m.between_eq hb
    rw [hv, he]
    exact h

/-! ## Every run -/

theorem leads_after {m : Machine τ} (hm : m.Sound) {v : Values} (h : Leads v m.changes m.storage.values)
    (ops : List (Op τ)) :
    Leads (m.originFrom v ops) (m.after ops).changes (m.after ops).storage.values := by
  induction ops generalizing m v with
  | nil => exact h
  | cons op ops ih =>
    rw [after_cons]
    refine ih (hm.perform op) ?_
    by_cases ho : op.restarts = true
    · -- the values after a restart are the new origin, and the log is empty
      rw [if_pos ho]
      unfold changes
      rw [history_restart ho]
      exact .refl _
    · rw [if_neg ho]
      exact leads_perform hm (Bool.eq_false_iff.2 ho) h

/-- After any operations on a machine as it was made, replaying the history over what registers and
memory held at the latest load or reset, or else at first, gives what they hold now; and each change
in the history names the value that its register or cell held just before it. -/
theorem history_exact {s : Setup τ} {clock : τ} {made : Machine τ} (h : ofSetup s clock = .ok made)
    (ops : List (Op τ)) :
    replay (made.origin ops) (made.after ops).changes = (made.after ops).storage.values ∧
    ∀ (before : List Change) (c : Change) (later : List Change),
      (made.after ops).changes = before ++ c :: later → c.Fits (replay (made.origin ops) before) := by
  have hempty : made.changes = [] := by
    rw [(ofSetup_ok h).2.2]
    rfl
  have hl := leads_after (sound_of_setup h) (v := made.storage.values) (by rw [hempty]; exact .refl _) ops
  exact ⟨hl.replay_eq, fun before c later hc => hl.fits.fits_at hc⟩

/-- A program is loaded over the values of one before it, and its second instruction stops a strict
machine. -/
def stoppedRun : List (Op Rat) :=
  .load [{ opcode := .mov, operand1 := some (.literal 7), destination := .given "R1" }]
    :: List.replicate 4 .step ++
  .load [{ opcode := .store, destination := .given "R1", address := .given 2 },
      { opcode := .add, destination := .given "R1" }]
    :: List.replicate 8 .step

/-- The history of that run starts from the value of the first program, and holds two fetches and a
store. -/
theorem history_exact_stopped :
    ((small false true).origin stoppedRun).register? "R1" = some 7 ∧
    ((small false true).after stoppedRun).step.outcome =
      .failed (.malformed ⟨"?", .add, .missing .operand1⟩) ∧
    ((small false true).after stoppedRun).changes =
      [.register ⟨"PC", 1, 1⟩, .memory ⟨2, 0, 7⟩, .register ⟨"PC", 1, 2⟩] ∧
    replay ((small false true).origin stoppedRun) ((small false true).after stoppedRun).changes =
      ((small false true).after stoppedRun).storage.values := by
  refine ⟨by decide +kernel, by decide +kernel, by decide +kernel, ?_⟩
  exact (history_exact (ofSetup_small false true) stoppedRun).1

end PhaseMachine.Machine
