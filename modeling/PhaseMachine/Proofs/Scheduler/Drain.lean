/-
What a poll takes from a scheduler, and what it leaves. No task that is still to run gets lost; over exact
times the tasks it takes are all that are due and no others, and those it leaves are due later.
-/
import PhaseMachine.Proofs.Scheduler.Order

namespace PhaseMachine.Scheduler

variable {π : Type}

/-! ## Any times -/

section

variable {τ : Type} [Quantity τ]

theorem live_takeDue? {s rest : Scheduler τ π} {now : τ} {t : Task τ π}
    (h : s.takeDue? now = some (t, rest)) : rest.live = s.live := by
  unfold takeDue? at h
  split at h
  · split at h
    · cases h
      rfl
    · cases h
  · cases h

/-- A task that is still to run is taken or left, and nothing is left but what was there. -/
theorem drain_keeps (s : Scheduler τ π) (now : τ) :
    (s.drain now).2.live = s.live ∧ (∀ t ∈ (s.drain now).2.queue, t ∈ s.queue) ∧
      ∀ t ∈ s.queue, s.live t = true → t ∈ (s.drain now).1 ∨ t ∈ (s.drain now).2.queue := by
  fun_induction s.drain now with
  | case1 s hnone => exact ⟨rfl, fun t ht => ht, fun t ht _ => .inr ht⟩
  | case2 s first rest htake tasks left hrest ih =>
    have hmem := mem_takeDue? htake
    have hlive := live_takeDue? htake
    rw [hrest, hlive] at ih
    obtain ⟨hsame, hleft, hkept⟩ := ih
    refine ⟨hsame, fun t ht => (hmem t).2 (.inr (hleft t ht)), fun t ht hl => ?_⟩
    rw [hlive]
    rcases (hmem t).1 ht with rfl | hin
    · rw [if_pos hl]
      exact .inl (List.mem_cons_self ..)
    · refine (hkept t hin hl).imp_left fun htaken => ?_
      split
      · exact List.mem_cons_of_mem _ htaken
      · exact htaken

end

/-! ## Exact times -/

variable {s : Scheduler Rat π} {now : Rat}

/-- Draining takes every due task away, and hands on those that are still to run. -/
theorem WF.drain (h : s.WF) :
    (∀ t, t ∈ (s.drain now).1 ↔ t ∈ s.queue ∧ t.due ≤ now ∧ s.live t = true) ∧
      (∀ t, t ∈ (s.drain now).2.queue ↔ t ∈ s.queue ∧ now < t.due) ∧ (s.drain now).2.WF := by
  fun_induction s.drain now with
  | case1 s hnone =>
    have hlater := h.takeDue?_none hnone
    refine ⟨fun t => ?_, fun t => ?_, h⟩
    · simp only [List.not_mem_nil, false_iff]
      rintro ⟨ht, hdue, -⟩
      exact absurd hdue (not_le.2 (hlater t ht))
    · exact ⟨fun ht => ⟨ht, hlater t ht⟩, And.left⟩
  | case2 s first rest htake tasks left hrest ih =>
    obtain ⟨hdrained, hleft, hwf⟩ := ih (h.takeDue? htake)
    have hmem := mem_takeDue? htake
    obtain ⟨-, -, hdue, hsame⟩ := takeDue?_some htake
    have hlive : ∀ t, rest.live t = s.live t := fun t => by rw [hsame]; rfl
    rw [hrest] at hdrained hleft hwf
    refine ⟨fun t => ?_, fun t => ?_, hwf⟩
    · have hrec : t ∈ tasks ↔ t ∈ rest.queue ∧ t.due ≤ now ∧ s.live t = true := by
        rw [← hlive]
        exact hdrained t
      rw [hmem, hlive]
      by_cases hf : t = first
      · -- the first task is handed on unless it is not to run, and is in the queue only once
        subst hf
        cases hl : s.live t with
        | true => simp [hdue]
        | false => simp [hrec, hl]
      · cases s.live first with
        | true => simp [hf, hrec]
        | false => simp [hf, hrec]
    · rw [hleft t, hmem t]
      constructor
      · rintro ⟨ht, hlater⟩
        exact ⟨.inr ht, hlater⟩
      · rintro ⟨rfl | ht, hlater⟩
        · exact absurd hdue (not_le.2 hlater)
        · exact ⟨ht, hlater⟩

/-- If none is cancelled, every due task is handed on. -/
theorem WF.mem_drain (h : s.WF) (hs : ∀ t ∈ s.queue, t.cancelled = false) (t : Task Rat π) :
    t ∈ (s.drain now).1 ↔ t ∈ s.queue ∧ t.due ≤ now := by
  rw [h.drain.1 t]
  exact ⟨fun ⟨ht, hd, _⟩ => ⟨ht, hd⟩, fun ⟨ht, hd⟩ => ⟨ht, hd, (h.live_iff ht).2 (hs t ht)⟩⟩

end PhaseMachine.Scheduler
