/-
Which tasks wait. Over exact times the open tasks of a story are those of the queue that were not
cancelled, whatever is done to the scheduler. So whenever one looks, a task that was scheduled waits in
the queue or was closed by a cancel of its number, by leaving the epoch, or by its own start.
-/
import PhaseMachine.Proofs.Scheduler.Acts
import PhaseMachine.Proofs.Scheduler.Order

namespace PhaseMachine.Script

/-! ## The queue and the open tasks -/

/-- The open tasks are those of the queue that were not cancelled. -/
def Waiting (acts : List (Act Rat)) (s : Scheduler Rat (Callback Rat)) : Prop :=
  ∀ t, Open acts t ↔ t ∈ s.queue ∧ t.cancelled = false

namespace Waiting

variable {acts : List (Act Rat)} {s rest : Scheduler Rat (Callback Rat)} {reading : Rat}
  {task : Task Rat (Callback Rat)}

theorem schedule (h : Waiting acts s) (now delay : Rat) (callback : Callback Rat) :
    Waiting (acts ++ [.scheduled (s.newTask now delay callback)]) (s.schedule now delay callback) := by
  intro t
  rw [open_concat, h t, Scheduler.mem_schedule]
  constructor
  · rintro (he | ⟨⟨ht, hc⟩, -⟩)
    · cases he
      exact ⟨.inl rfl, rfl⟩
    · exact ⟨.inr ht, hc⟩
  · rintro ⟨rfl | ht, hc⟩
    · exact .inl rfl
    · exact .inr ⟨⟨ht, hc⟩, fun he => he⟩

/-- A cancelled task stays in the queue, but is not open any more. -/
theorem cancel (h : Waiting acts s) (seq : Nat) : Waiting (acts ++ [.cancelled seq]) (s.cancel seq) := by
  intro t
  rw [open_concat, h t]
  refine Iff.trans ?_ Scheduler.mem_cancel_iff.symm
  constructor
  · rintro (he | ⟨ht, hne⟩)
    · cases he
    · exact ⟨ht, fun he => hne he.symm⟩
  · rintro ⟨ht, hne⟩
    exact .inr ⟨ht, fun he => hne he.symm⟩

theorem advanceEpoch (acts : List (Act Rat)) (s : Scheduler Rat (Callback Rat)) :
    Waiting (acts ++ [.left]) s.advanceEpoch := by
  intro t
  rw [open_concat]
  constructor
  · rintro (he | ⟨-, hne⟩)
    · cases he
    · exact absurd trivial hne
  · rintro ⟨ht, -⟩
    exact absurd ht (Array.not_mem_empty t)

/-- A task that is taken and not live was cancelled, so it was not open. -/
theorem pass (h : Waiting acts s) (hwf : s.WF) (ht : s.takeDue? reading = some (task, rest))
    (hl : rest.live task = false) : Waiting acts rest := by
  have hmem := Scheduler.mem_takeDue? ht
  have hcancelled : task.cancelled = true := by
    by_contra hc
    have hlive := (hwf.live_iff ((hmem task).2 (.inl rfl))).2 (Bool.eq_false_iff.2 hc)
    obtain ⟨-, -, -, rfl⟩ := Scheduler.takeDue?_some ht
    rw [show s.live task = false from hl] at hlive
    cases hlive
  intro t
  rw [h t, hmem]
  constructor
  · rintro ⟨rfl | hin, hc⟩
    · rw [hcancelled] at hc; cases hc
    · exact ⟨hin, hc⟩
  · rintro ⟨hin, hc⟩
    exact ⟨.inr hin, hc⟩

/-- A task that is taken and live was open. -/
theorem open_of_live (h : Waiting acts s) (hwf : s.WF) (ht : s.takeDue? reading = some (task, rest))
    (hl : rest.live task = true) : Open acts task := by
  have htask : task ∈ s.queue := (Scheduler.mem_takeDue? ht task).2 (.inl rfl)
  obtain ⟨-, -, -, rfl⟩ := Scheduler.takeDue?_some ht
  exact (h task).2 ⟨htask, (hwf.live_iff htask).1 hl⟩

theorem start (h : Waiting acts s) (hwf : s.WF) (ht : s.takeDue? reading = some (task, rest)) :
    Waiting (acts ++ [.started ⟨task, reading⟩]) rest := by
  intro t
  rw [open_concat, h t, Scheduler.mem_takeDue? ht]
  constructor
  · rintro (he | ⟨⟨rfl | hin, hc⟩, hne⟩)
    · cases he
    · exact absurd rfl hne
    · exact ⟨hin, hc⟩
  · rintro ⟨hin, hc⟩
    exact .inr ⟨⟨.inr hin, hc⟩, fun he => (hwf.takeDue?_lt ht hin).2 he.symm⟩

end Waiting

/-! ## Ledgers -/

/-- A well-formed scheduler with acts that say which tasks wait in it, where no start closed a task other
than its own. -/
structure Ledger (acts : List (Act Rat)) (s : Scheduler Rat (Callback Rat)) : Prop where
  wf : s.WF
  waiting : Waiting acts s
  own : ∀ a t, Closed acts (.started a) t → a.task = t

namespace Ledger

variable {acts : List (Act Rat)} {s : Scheduler Rat (Callback Rat)} {t : Task Rat (Callback Rat)}

/-- Acts that are no starts close no task by a start. -/
theorem own_concat (h : Ledger acts s) {b : Act Rat} (hb : ∀ a, b ≠ .started a) :
    ∀ a t, Closed (acts ++ [b]) (.started a) t → a.task = t := by
  intro a t hc
  rcases closed_concat.1 hc with hc | ⟨rfl, -, -⟩
  · exact h.own a t hc
  · exact absurd rfl (hb a)

/-- Every step keeps the ledger. -/
theorem turn {s s' : Session Rat} {act? : Option (Act Rat)} (h : Ledger acts s.scheduler)
    (ht : s.Turn act? s') : Ledger (acts ++ act?.toList) s'.scheduler := by
  cases ht with
  | kept clock => exact (List.append_nil acts).symm ▸ h
  | scheduled delay callback =>
    exact ⟨h.wf.schedule _ _ _, h.waiting.schedule _ _ _, h.own_concat fun a ha => by cases ha⟩
  | cancelled seq => exact ⟨h.wf.cancel seq, h.waiting.cancel seq, h.own_concat fun a ha => by cases ha⟩
  | left => exact ⟨.advanceEpoch _, .advanceEpoch _ _, h.own_concat fun a ha => by cases ha⟩
  | @started reading task rest taken live =>
    refine ⟨h.wf.takeDue? taken, h.waiting.start h.wf taken, fun a t hc => ?_⟩
    rcases closed_concat.1 hc with hc | ⟨he, ho, hseq⟩
    · exact h.own a t hc
    · -- the open task of that number is in the queue, where there is only one
      cases he
      have htask := (Scheduler.mem_takeDue? taken task).2 (.inl rfl)
      exact h.wf.eq_of_seq htask ((h.waiting t).1 ho).1 hseq
  | passed taken dead =>
    have hkept : Ledger acts _ := ⟨h.wf.takeDue? taken, h.waiting.pass h.wf taken dead, h.own⟩
    exact (List.append_nil acts).symm ▸ hkept

/-- So every moment of a run has the ledger of its acts. -/
theorem moment {r : Run Rat} (h : Ledger acts r.session.scheduler) (n : Nat) :
    Ledger (acts ++ r.acts n) (r.moment n).session.scheduler := by
  induction n with
  | zero => exact (List.append_nil acts).symm ▸ h
  | succ n ih =>
    rcases r.moment_succ_cases n with ⟨q, hq, hmoment⟩ | ⟨hmoment, hacts⟩
    · rw [hmoment, show r.acts (n + 1) = r.acts n ++ (r.moment n).act?.toList from rfl, ← List.append_assoc]
      exact ih.turn (Run.turn hq)
    · rw [hmoment, hacts]
      exact ih

/-- A task that was scheduled is in the queue, or something has closed it. -/
theorem waits_or_closed (h : Ledger acts s) (ht : .scheduled t ∈ acts) :
    t ∈ s.queue ∨ (∃ reading, Closed acts (.started ⟨t, reading⟩) t) ∨
      Closed acts (.cancelled t.seq) t ∨ Closed acts .left t := by
  rcases open_or_closed ht with ho | ⟨a, hc⟩
  · exact .inl ((h.waiting t).1 ho).1
  · have hends : a.Ends t := by
      obtain ⟨-, -, -, -, he⟩ := hc
      exact he
    cases a with
    | scheduled u => exact hends.elim
    | cancelled seq => exact .inr (.inr (.inl (hends ▸ hc)))
    | left => exact .inr (.inr (.inr hc))
    | started a =>
      obtain rfl := h.own a t hc
      exact .inr (.inl ⟨a.reading, hc⟩)

end Ledger

/-! ## Where a ledger starts -/

/-- The tasks of a session that are still to run. -/
def Session.waiting (s : Session Rat) : List (Task Rat (Callback Rat)) :=
  s.scheduler.queue.toList.filter s.scheduler.live

theorem open_map_scheduled {ts : List (Task Rat (Callback Rat))} {t : Task Rat (Callback Rat)} :
    Open (ts.map .scheduled) t ↔ t ∈ ts := by
  constructor
  · intro h
    obtain ⟨u, hu, he⟩ := List.mem_map.1 h.scheduled
    cases he
    exact hu
  · intro h
    rcases open_or_closed (List.mem_map_of_mem h : Act.scheduled t ∈ ts.map .scheduled) with ho | ⟨a, hc⟩
    · exact ho
    · obtain ⟨earlier, later, hacts, -, hends⟩ := hc
      obtain ⟨u, -, rfl⟩ := List.mem_map.1 (hacts ▸ List.mem_append_right earlier (List.mem_cons_self ..))
      exact hends.elim

theorem ledger_waiting {s : Session Rat} (h : s.scheduler.WF) : Ledger (s.waiting.map .scheduled) s.scheduler where
  wf := h
  waiting t := by
    rw [open_map_scheduled, Session.waiting, List.mem_filter, Array.mem_toList_iff]
    exact and_congr_right fun ht => h.live_iff ht
  own a t hc := by
    obtain ⟨earlier, later, hacts, -, -⟩ := hc
    obtain ⟨u, -, he⟩ := List.mem_map.1 (hacts ▸ List.mem_append_right earlier (List.mem_cons_self ..))
    cases he

end PhaseMachine.Script
