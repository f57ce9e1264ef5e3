/-
Which addresses a machine visits in its cache, and when. A step visits an address exactly if it carries
out a load from memory or a store; the trace of a run lists the visits, the latest first, each with the
program and the cycle it fell in. Programs and cycles only go up along a trace, so the stamp of a line
dates its latest visit within one program.
-/
import PhaseMachine.Proofs.Machine.Soundness

namespace PhaseMachine

/-! ## Traces -/

/-- A visit to an address: how many programs had been loaded, and the cycle within the latest one. -/
structure Visit where
  address : Int
  load : Nat
  cycle : Nat
deriving DecidableEq, Repr

/-- One visit is made before another. -/
def Visit.Before (x y : Visit) : Prop :=
  x.load < y.load ∨ x.load = y.load ∧ x.cycle < y.cycle

theorem Visit.Before.irrefl (x : Visit) : ¬ x.Before x := by
  unfold Visit.Before
  omega

theorem Visit.Before.asymm {x y : Visit} (h : x.Before y) : ¬ y.Before x := by
  unfold Visit.Before at h ⊢
  omega

/-- The visits of a run since the machine was made or reset, the latest first. -/
structure Trace where
  loads : Nat := 0
  visits : List Visit := []
deriving DecidableEq, Repr

namespace Trace

def latest? (t : Trace) (address : Int) : Option Visit :=
  t.visits.find? (·.address == address)

/-- How many visits were made since the latest one to an address. -/
def age (t : Trace) (address : Int) : Nat :=
  t.visits.findIdx (·.address == address)

/-- How many programs had been loaded at the latest visit to an address. -/
def lastLoad (t : Trace) (address : Int) : Nat :=
  ((t.latest? address).map (·.load)).getD 0

/-- The visits come in order, each before the ones made after it. -/
def Sorted (t : Trace) : Prop :=
  t.visits.Pairwise fun x y => y.Before x

/-- The younger of two addresses is the one whose latest visit is not before that of the other. -/
theorem age_le_iff {t : Trace} (hs : t.Sorted) {a b : Int} {x y : Visit} (hx : t.latest? a = some x)
    (hy : t.latest? b = some y) : t.age b ≤ t.age a ↔ ¬ y.Before x := by
  unfold latest? at hx hy
  unfold age
  unfold Sorted at hs
  generalize t.visits = visits at hs hx hy ⊢
  -- going back in time, the address that is met first is the younger one
  induction visits with
  | nil => cases hx
  | cons z rest ih =>
    obtain ⟨hz, hrest⟩ := List.pairwise_cons.1 hs
    rw [List.find?_cons] at hx hy
    rw [List.findIdx_cons, List.findIdx_cons]
    by_cases ha : z.address = a <;> by_cases hb : z.address = b
    · simp only [beq_iff_eq.2 ha, beq_iff_eq.2 hb, Option.some.injEq] at hx hy
      subst hx hy
      simp only [beq_iff_eq.2 ha, beq_iff_eq.2 hb, cond_true, le_refl, Visit.Before.irrefl, not_false_iff]
    · simp only [beq_iff_eq.2 ha, beq_eq_false_iff_ne.2 hb, Option.some.injEq] at hx hy
      subst hx
      have hyz := hz y (List.mem_of_find?_eq_some hy)
      simp only [beq_iff_eq.2 ha, beq_eq_false_iff_ne.2 hb, cond_true, cond_false, hyz]
      simp
    · simp only [beq_eq_false_iff_ne.2 ha, beq_iff_eq.2 hb, Option.some.injEq] at hx hy
      subst hy
      have hzx := (hz x (List.mem_of_find?_eq_some hx)).asymm
      simp only [beq_eq_false_iff_ne.2 ha, beq_iff_eq.2 hb, cond_true, cond_false, hzx]
      simp
    · simp only [beq_eq_false_iff_ne.2 ha, beq_eq_false_iff_ne.2 hb] at hx hy
      simp only [beq_eq_false_iff_ne.2 ha, beq_eq_false_iff_ne.2 hb, cond_false, Nat.add_le_add_iff_right]
      exact ih hrest hx hy

end Trace

/-! ## Visits of a step -/

/-- The address that carrying the action out visits. -/
def Action.visits? : Action → Option Int
  | loadCell _ address _ => some address
  | storeCell _ address _ => some address
  | _ => none

/-- Carrying out an action visits its address in the cache, and else leaves the cache as it is. -/
theorem Action.cache_effect (s : Storage) (cycle : Int) (a : Action) :
    (a.visits? = none ∧ (a.effect s cycle).storage.cache = s.cache) ∨
    ∃ address, a.visits? = some address ∧ s.cache.Visited (a.effect s cycle).storage.cache address cycle := by
  cases a with
  | set d x => exact .inl ⟨rfl, rfl⟩
  | compute d x y result => exact .inl ⟨rfl, rfl⟩
  | nothing => exact .inl ⟨rfl, rfl⟩
  | loadCell d address asFlag => exact .inr ⟨address, rfl, s.cache.visited_check ..⟩
  | storeCell source address old => exact .inr ⟨address, rfl, s.cache.visited_update ..⟩

namespace Machine

variable {τ : Type}

/-- The address that the next stage of an instruction visits. -/
def visitsWith? (m : Machine τ) (i : Instruction) : Option Int :=
  match m.stage with
  | .execute => (i.action m.storage).toOption.bind Action.visits?
  | _ => none

/-- The address that the next step visits. -/
def visits? (m : Machine τ) : Option Int :=
  m.program[m.index]?.bind m.visitsWith?

/-- The work of a stage visits the address in the cycle of the step, and else leaves the cache as it is. -/
theorem work_cache {m : Machine τ} {i : Instruction} {e : Effect} (hw : m.enter.work i = .ok e) :
    (m.visitsWith? i = none ∧ e.storage.cache = m.storage.cache) ∨
    ∃ address, m.visitsWith? i = some address ∧
      m.storage.cache.Visited e.storage.cache address ↑(m.cycle + 1) := by
  have hstage : m.enter.stage = m.stage := rfl
  unfold work at hw
  unfold visitsWith?
  rw [hstage] at hw
  cases hs : m.stage with
  | fetch => rw [hs] at hw; cases hw; exact .inl ⟨rfl, rfl⟩
  | decode => rw [hs] at hw; cases hw; exact .inl ⟨rfl, rfl⟩
  | store => rw [hs] at hw; cases hw; exact .inl ⟨rfl, rfl⟩
  | execute =>
    rw [hs] at hw
    dsimp only at hw ⊢
    cases ht : i.attempt m.enter.strict m.enter.storage m.enter.cycle with
    | error f => rw [ht] at hw; cases hw
    | ok x =>
      rw [ht] at hw
      cases hw
      cases x with
      | done e =>
        obtain ⟨a, ha, -, rfl⟩ := Instruction.execute_ok (Instruction.attempt_done ht)
        rw [show i.action m.storage = .ok a from ha]
        exact Action.cache_effect m.storage ↑(m.cycle + 1) a
      | skipped x =>
        -- a malformed instruction asks for nothing, so it has no address
        obtain ⟨f, hf⟩ := Instruction.attempt_skipped ht
        rw [show i.action m.storage = .error f from hf]
        exact .inl ⟨rfl, rfl⟩

/-- A stage that visits an address does not fail. -/
theorem work_of_visit {m : Machine τ} {i : Instruction} {address : Int}
    (hv : m.visitsWith? i = some address) : ∃ e, m.enter.work i = .ok e := by
  unfold visitsWith? at hv
  unfold work
  rw [show m.enter.stage = m.stage from rfl]
  split at hv
  · next hs =>
    rw [hs]
    cases ha : i.action m.storage with
    | error f => rw [ha] at hv; cases hv
    | ok a =>
      refine ⟨a.effect m.storage ↑(m.cycle + 1), ?_⟩
      dsimp only
      unfold Instruction.attempt Instruction.execute
      rw [show i.action m.enter.storage = .ok a from ha]
      rfl
  · cases hv

variable [Quantity τ]

/-- A step visits its address in the cycle that begins with it, or visits none and leaves the cache as
it is. -/
theorem cache_step (m : Machine τ) :
    (m.visits? = none ∧ m.step.machine.storage.cache = m.storage.cache) ∨
    ∃ address, m.visits? = some address ∧ m.step.machine.cycle = m.cycle + 1 ∧
      m.storage.cache.Visited m.step.machine.storage.cache address ↑(m.cycle + 1) := by
  unfold visits?
  rcases m.step_machine with ⟨hi, h⟩ | ⟨i, f, hi, hw, h⟩ | ⟨i, e, index, stage, bus, timers, hi, hw, h⟩
  · rw [hi, h]
    exact .inl ⟨rfl, rfl⟩
  · rw [hi, h]
    refine .inl ⟨?_, rfl⟩
    cases hv : m.visitsWith? i with
    | none => exact hv
    | some address =>
      obtain ⟨e, he⟩ := work_of_visit hv
      rw [hw] at he
      cases he
  · rw [hi, h]
    rcases work_cache hw with hv | ⟨address, ha, hv⟩
    · exact .inl hv
    · exact .inr ⟨address, ha, rfl, hv⟩

/-- A step never takes the count of cycles back. -/
theorem cycle_le_step (m : Machine τ) : m.cycle ≤ m.step.machine.cycle := by
  rcases m.step_machine with ⟨-, h⟩ | ⟨i, f, -, -, h⟩ | ⟨i, e, index, stage, bus, timers, -, -, h⟩
  · rw [h]
  · rw [h]
    exact Nat.le_succ _
  · rw [h]
    exact Nat.le_succ _

/-! ## The trace of a run -/

def traced (t : Trace) (m : Machine τ) : Op τ → Trace
  | .load _ => { t with loads := t.loads + 1 }
  | .reset => {}
  | .step =>
    match m.visits? with
    | some address => { t with visits := ⟨address, t.loads, m.cycle + 1⟩ :: t.visits }
    | none => t
  | _ => t

omit [Quantity τ] in
theorem traced_between {t : Trace} {m : Machine τ} {op : Op τ} (h : op.between = true) :
    traced t m op = t := by
  cases op with
  | load program => cases h
  | reset => cases h
  | step => cases h
  | _ => rfl

def traceFrom (t : Trace) (m : Machine τ) : List (Op τ) → Trace
  | [] => t
  | op :: ops => traceFrom (traced t m op) (m.perform op) ops

/-- The trace of a run from a machine as it is made. -/
def trace (m : Machine τ) (ops : List (Op τ)) : Trace :=
  traceFrom {} m ops

end Machine

end PhaseMachine
