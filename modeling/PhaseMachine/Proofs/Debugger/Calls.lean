/-
Calls on a debugger from outside, in any order: edits of its breakpoints, operations on its machine, and
controlled execution. Controlled execution is made of single phases, so what a phase keeps every call
keeps. A debugger is marked as running during a run. A run that returns takes the mark away, and so does a
stop, but a run that fails leaves it.
-/
import PhaseMachine.Proofs.Debugger.Run

namespace PhaseMachine.Debugger

/-! ## Calls -/

/-- A change to the breakpoints. -/
inductive Edit where
  | add (b : Breakpoint)
  | update (old new : Breakpoint)
  | remove (b : Breakpoint)

/-- What can be done with a debugger, or with its machine past it. -/
inductive Call (τ : Type) where
  | edit (e : Edit)
  | machine (op : Machine.Op τ)
  | stepPhase
  | stepInstruction
  | run (limit : Option Int)
  | stop

variable {τ : Type}

def edited (d : Debugger τ) : Edit → Debugger τ
  | .add b => d.add b
  | .update old new => d.update old new
  | .remove b => d.remove b

variable [Quantity τ]

/-- The debugger after a call, whether it returns or fails. -/
def call (d : Debugger τ) : Call τ → Debugger τ
  | .edit e => d.edited e
  | .machine op => { d with machine := d.machine.perform op }
  | .stepPhase => d.stepPhase.debugger
  | .stepInstruction => d.stepInstruction.debugger
  | .run limit => (d.run limit).debugger
  | .stop => d.stop

def afterCalls (d : Debugger τ) (calls : List (Call τ)) : Debugger τ :=
  calls.foldl call d

omit [Quantity τ] in
/-- An edit changes the breakpoints only. -/
theorem edited_eq (d : Debugger τ) (e : Edit) :
    d.edited e = { d with breakpoints := (d.edited e).breakpoints } := by
  cases e with
  | add b =>
    show d.add b = { d with breakpoints := (d.add b).breakpoints }
    unfold add
    split <;> rfl
  | _ => rfl

theorem afterCalls_concat (d : Debugger τ) (calls : List (Call τ)) (c : Call τ) :
    d.afterCalls (calls ++ [c]) = (d.afterCalls calls).call c :=
  List.foldl_append

/-! ## What phases keep -/

/-- A phase is a step of the machine, and changes neither the breakpoints nor the mark. -/
theorem stepPhase_keeps (d : Debugger τ) : d.stepPhase.debugger.machine = d.machine.step.machine ∧
    d.stepPhase.debugger.breakpoints = d.breakpoints ∧ d.stepPhase.debugger.running = d.running := by
  unfold stepPhase
  dsimp only
  split <;> exact ⟨rfl, rfl, rfl⟩

section Keeps

variable {P : Debugger τ → Prop} (hphase : ∀ d : Debugger τ, P d → P d.stepPhase.debugger)
include hphase

/-- What every phase keeps, the rest of an instruction keeps. -/
theorem stepToStore_keeps {d : Debugger τ} (h : P d) (done : List Record) (log : List Event) :
    P (d.stepToStore done log).debugger := by
  fun_induction d.stepToStore done log with
  | case1 done log d r f hr => exact hphase d h
  | case2 done log d r hr => exact hphase d h
  | case3 done log d r record hr hstore => exact hphase d h
  | case4 done log d r record hr hstore ih => exact ih (hphase d h)

/-- What a stop keeps as well, a run keeps. -/
theorem runFrom_keeps (hstop : ∀ d : Debugger τ, P d → P d.stop) {d : Debugger τ} (h : P d) (limit : Option Int)
    (n : Nat) (log : List Event) : P (d.runFrom limit n log).debugger := by
  fun_induction d.runFrom limit n log with
  | case1 n log d hreached => exact hstop d h
  | case2 n log d hreached hbefore => exact hstop d h
  | case3 n log d hreached hbefore r f hr => exact hphase d h
  | case4 n log d hreached hbefore r hr => exact hstop _ (hphase d h)
  | case5 n log d hreached hbefore r record hr hafter => exact hstop _ (hphase d h)
  | case6 n log d hreached hbefore r record hr hafter ih => exact ih (hphase d h)

end Keeps

/-! ## What calls keep -/

/-- Only edits change the breakpoints. -/
theorem breakpoints_call (d : Debugger τ) (c : Call τ) :
    (d.call c).breakpoints = d.breakpoints ∨
      ∃ e, c = .edit e ∧ (d.call c).breakpoints = (d.edited e).breakpoints := by
  have hphase : ∀ now : Debugger τ, now.breakpoints = d.breakpoints →
      now.stepPhase.debugger.breakpoints = d.breakpoints :=
    fun now h => now.stepPhase_keeps.2.1.trans h
  cases c with
  | edit e => exact .inr ⟨e, rfl, rfl⟩
  | machine op => exact .inl rfl
  | stepPhase => exact .inl (hphase d rfl)
  | stepInstruction => exact .inl (stepToStore_keeps hphase rfl ..)
  | run limit =>
    exact .inl (runFrom_keeps hphase (fun _ h => h) (d := { d with running := true }) rfl limit 0 [])
  | stop => exact .inl rfl

/-- The machine stays one that a setup can come to. -/
theorem reachable_call {d : Debugger τ} (h : d.machine.Reachable) (c : Call τ) : (d.call c).machine.Reachable := by
  have hphase : ∀ now : Debugger τ, now.machine.Reachable → now.stepPhase.debugger.machine.Reachable := by
    intro now hnow
    rw [now.stepPhase_keeps.1]
    exact hnow.perform .step
  cases c with
  | edit e =>
    show (d.edited e).machine.Reachable
    rw [edited_eq]
    exact h
  | machine op => exact h.perform op
  | stepPhase => exact hphase d h
  | stepInstruction => exact stepToStore_keeps hphase h ..
  | run limit => exact runFrom_keeps hphase (fun _ h => h) (d := { d with running := true }) h limit 0 []
  | stop => exact h

theorem reachable_afterCalls {d : Debugger τ} (h : d.machine.Reachable) (calls : List (Call τ)) :
    (d.afterCalls calls).machine.Reachable := by
  induction calls using List.reverseRecOn with
  | nil => exact h
  | append_singleton calls c ih =>
    rw [afterCalls_concat]
    exact reachable_call ih c

/-! ## The mark of a run -/

/-- Whether a call sets or takes away the mark. -/
def Call.marks : Call τ → Bool
  | .run _ | .stop => true
  | _ => false

/-- A run leaves the mark exactly if it fails. -/
theorem running_run (d : Debugger τ) (limit : Option Int) :
    (d.run limit).debugger.running = true ↔ ∃ f, (d.run limit).result = .error f := by
  have hloop : ∀ (n : Nat) (log : List Event) (d : Debugger τ), d.running = true →
      ((d.runFrom limit n log).debugger.running = true ↔ ∃ f, (d.runFrom limit n log).result = .error f) := by
    intro n log d h
    fun_induction d.runFrom limit n log with
    | case1 n log d hreached => simp [stop]
    | case2 n log d hreached hbefore => simp [stop]
    | case3 n log d hreached hbefore r f hr => simp [r, d.stepPhase_keeps.2.2, h]
    | case4 n log d hreached hbefore r hr => simp [stop]
    | case5 n log d hreached hbefore r record hr hafter => simp [stop]
    | case6 n log d hreached hbefore r record hr hafter ih => exact ih (d.stepPhase_keeps.2.2.trans h)
  exact hloop 0 [] { d with running := true } rfl

/-- The other calls but a stop do not touch it. -/
theorem running_call (d : Debugger τ) {c : Call τ} (hc : c.marks = false) : (d.call c).running = d.running := by
  have hphase : ∀ now : Debugger τ, now.running = d.running → now.stepPhase.debugger.running = d.running :=
    fun now h => now.stepPhase_keeps.2.2.trans h
  cases c with
  | edit e =>
    show (d.edited e).running = d.running
    rw [edited_eq]
  | machine op => rfl
  | stepPhase => exact hphase d rfl
  | stepInstruction => exact stepToStore_keeps hphase rfl ..
  | run limit => cases hc
  | stop => cases hc

/-- The latest run or stop among some calls is a run that fails. -/
def FailedLast (d : Debugger τ) (calls : List (Call τ)) : Prop :=
  ∃ before limit later f, calls = before ++ .run limit :: later ∧
    ((d.afterCalls before).run limit).result = .error f ∧ ∀ c ∈ later, c.marks = false

theorem failedLast_cons (d : Debugger τ) (c : Call τ) (calls : List (Call τ)) : d.FailedLast (c :: calls) ↔
    (∃ limit f, c = .run limit ∧ (d.run limit).result = .error f ∧ ∀ c ∈ calls, c.marks = false) ∨
      (d.call c).FailedLast calls := by
  constructor
  · rintro ⟨before, limit, later, f, he, hf, hlater⟩
    cases before with
    | nil =>
      obtain ⟨rfl, rfl⟩ := List.cons.inj he
      exact .inl ⟨limit, f, rfl, hf, hlater⟩
    | cons c before =>
      obtain ⟨rfl, rfl⟩ := List.cons.inj he
      exact .inr ⟨before, limit, later, f, rfl, hf, hlater⟩
  · rintro (⟨limit, f, rfl, hf, hlater⟩ | ⟨before, limit, later, f, rfl, hf, hlater⟩)
    · exact ⟨[], limit, calls, f, rfl, hf, hlater⟩
    · exact ⟨c :: before, limit, later, f, rfl, hf, hlater⟩

/-- A mark that was set before stays if nothing sets it or takes it away. -/
theorem running_afterCalls (d : Debugger τ) (calls : List (Call τ)) : (d.afterCalls calls).running = true ↔
    (d.running = true ∧ ∀ c ∈ calls, c.marks = false) ∨ d.FailedLast calls := by
  induction calls generalizing d with
  | nil =>
    constructor
    · intro h
      exact .inl ⟨h, List.forall_mem_nil _⟩
    · rintro (⟨h, -⟩ | ⟨before, limit, later, f, he, -⟩)
      · exact h
      · simp at he
  | cons c calls ih =>
    show ((d.call c).afterCalls calls).running = true ↔ _
    rw [ih, failedLast_cons, List.forall_mem_cons]
    cases hc : c.marks with
    | false =>
      have hno : ∀ limit, c ≠ .run limit := by
        rintro limit rfl
        cases hc
      rw [running_call d hc]
      simp [hno]
    | true =>
      -- a run or a stop decides whatever the mark was
      cases c with
      | run limit =>
        show (d.run limit).debugger.running = true ∧ _ ∨ _ ↔ _
        rw [running_run]
        simp
      | stop => simp [call, stop]
      | _ => cases hc

/-- After any calls a debugger is marked as running exactly if the latest run or stop among them is a run
that failed. -/
theorem running_iff (m : Machine τ) (calls : List (Call τ)) :
    ((attach m).afterCalls calls).running = true ↔ (attach m).FailedLast calls := by
  rw [running_afterCalls]
  simp [attach]

/-- A run of a strict machine fails at the second instruction, and the debugger stays marked as running. -/
theorem run_fails_marked :
    let d := attach ((Machine.small false true).load Machine.stoppingProgram)
    d.machine.Reachable ∧ d.machine.strict = true ∧
      (d.run none).result = .error (.malformed ⟨"?", .add, .missing .operand1⟩) ∧
      (d.afterCalls [.run none]).running = true ∧ (d.afterCalls [.run none, .stepPhase]).running = true := by
  intro d
  have hm : d.machine.Reachable := (Machine.reachable_small false true).perform (.load _)
  exact ⟨hm, by decide +kernel, by decide +kernel, by decide +kernel, by decide +kernel⟩

end PhaseMachine.Debugger
