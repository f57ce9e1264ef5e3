/-
Schedulers over exact times. Tasks come by due time, and by number at one time; the queue is in this
order, its tasks have numbers of their own that were given out before, and belong to the current
epoch. Every operation keeps this, so the task that is taken comes before all that are left.
-/
import PhaseMachine.Proofs.Scheduler.HeapOrder
import PhaseMachine.Scheduler.Basic
import Mathlib.Algebra.Order.Ring.Rat
import Mathlib.Data.Prod.Lex

namespace PhaseMachine

variable {π : Type}

/-- On exact quantities a floor is a maximum. -/
theorem Quantity.atLeast_eq_max (floor x : Rat) : Quantity.atLeast floor x = max floor x := by
  unfold Quantity.atLeast
  split
  · next h => rw [max_eq_right (le_of_lt h)]
  · next h => rw [max_eq_left (not_lt.1 h)]

/-! ## The order of tasks -/

def Task.key (t : Task Rat π) : Rat ×ₗ Nat :=
  toLex (t.due, t.seq)

theorem Task.key_lt_iff {a b : Task Rat π} : a.key < b.key ↔ a.due < b.due ∨ a.due = b.due ∧ a.seq < b.seq :=
  Prod.Lex.toLex_lt_toLex

theorem Task.before_iff (a b : Task Rat π) : a.before b = true ↔ a.key < b.key := by
  unfold Task.before
  rw [Bool.or_eq_true, Bool.and_eq_true, Bool.and_eq_true, decide_eq_true_iff, decide_eq_true_iff,
    decide_eq_true_iff, decide_eq_true_iff, Task.key_lt_iff, le_antisymm_iff]

/-- Tasks of different numbers have different keys. -/
theorem Task.key_lt_of_le {a b : Task Rat π} (hle : a.key ≤ b.key) (hne : a.seq ≠ b.seq) : a.key < b.key := by
  refine lt_of_le_of_ne hle fun he => hne ?_
  exact congrArg (fun k => (ofLex k).2) he

namespace Scheduler

/-! ## Well-formed schedulers -/

/-- The queue is in order, and its tasks have different numbers, given out before, in the current epoch. -/
structure WF (s : Scheduler Rat π) : Prop where
  ordered : Heap.Ordered Task.key s.queue
  numbered : ∀ t ∈ s.queue, t.seq < s.nextSeq
  distinct : (s.queue.toList.map (·.seq)).Nodup
  current : ∀ t ∈ s.queue, t.epoch = s.epoch

theorem wf_empty : ({} : Scheduler Rat π).WF :=
  ⟨Heap.ordered_empty, fun t ht => absurd ht (Array.not_mem_empty t), List.nodup_nil,
    fun t ht => absurd ht (Array.not_mem_empty t)⟩

variable {s : Scheduler Rat π}

theorem WF.eq_of_seq (h : s.WF) {t u : Task Rat π} (ht : t ∈ s.queue) (hu : u ∈ s.queue)
    (he : t.seq = u.seq) : t = u :=
  List.inj_on_of_nodup_map h.distinct (Array.mem_toList_iff.2 ht) (Array.mem_toList_iff.2 hu) he

/-- A task of the queue is live unless it was cancelled. -/
theorem WF.live_iff (h : s.WF) {t : Task Rat π} (ht : t ∈ s.queue) : s.live t = true ↔ t.cancelled = false := by
  unfold live
  rw [h.current t ht, beq_self_eq_true, Bool.and_true, Bool.not_eq_true']

/-! ## Scheduling -/

theorem mem_schedule {τ : Type} [Quantity τ] {s : Scheduler τ π} (now delay : τ) (payload : π) (t : Task τ π) :
    t ∈ (s.schedule now delay payload).queue ↔ t = s.newTask now delay payload ∨ t ∈ s.queue := by
  have hp := Heap.perm_push Task.before s.queue (s.newTask now delay payload)
  rw [← Array.mem_toList_iff]
  refine hp.mem_iff.trans ?_
  rw [List.mem_cons, Array.mem_toList_iff]

theorem standing_schedule {τ : Type} [Quantity τ] {s : Scheduler τ π}
    (h : ∀ t ∈ s.queue, t.cancelled = false) (now delay : τ) (payload : π) :
    ∀ t ∈ (s.schedule now delay payload).queue, t.cancelled = false := by
  intro t ht
  rcases (mem_schedule ..).1 ht with rfl | ht
  · rfl
  · exact h t ht

theorem WF.schedule (h : s.WF) (now delay : Rat) (payload : π) : (s.schedule now delay payload).WF := by
  constructor
  · exact Heap.ordered_push Task.before_iff h.ordered _
  · intro t ht
    show t.seq < s.nextSeq + 1
    rcases (mem_schedule ..).1 ht with rfl | ht
    · exact Nat.lt_succ_self _
    · exact (h.numbered t ht).trans (Nat.lt_succ_self _)
  · have hp := Heap.perm_push Task.before s.queue (s.newTask now delay payload)
    refine ((hp.map (·.seq)).nodup_iff).2 (List.nodup_cons.2 ⟨?_, h.distinct⟩)
    intro hmem
    obtain ⟨t, ht, he⟩ := List.mem_map.1 hmem
    have hlt := h.numbered t (Array.mem_toList_iff.1 ht)
    rw [show t.seq = s.nextSeq from he] at hlt
    exact lt_irrefl _ hlt
  · intro t ht
    rcases (mem_schedule ..).1 ht with rfl | ht
    · rfl
    · exact h.current t ht

/-- A delay counts from now, and a negative one as none. -/
theorem le_due_newTask (s : Scheduler Rat π) (now delay : Rat) (payload : π) :
    now ≤ (s.newTask now delay payload).due := by
  show now ≤ now + Quantity.atLeast 0 delay
  rw [Quantity.atLeast_eq_max]
  exact le_add_of_nonneg_right (le_max_left 0 delay)

/-! ## Cancelling -/

/-- What is left of a task where it stands in the queue, after the task of a number was cancelled. -/
theorem mem_cancel {seq : Nat} {t : Task Rat π} (ht : t ∈ (s.cancel seq).queue) :
    ∃ u ∈ s.queue, ∃ cancelled, t = { u with cancelled } := by
  obtain ⟨u, hu, rfl⟩ := Array.mem_map.1 ht
  by_cases hs : u.seq = seq
  · exact ⟨u, hu, true, if_pos hs⟩
  · exact ⟨u, hu, u.cancelled, if_neg hs⟩

/-- The tasks of the queue that were not cancelled are those of before with other numbers. -/
theorem mem_cancel_iff {seq : Nat} {t : Task Rat π} :
    t ∈ (s.cancel seq).queue ∧ t.cancelled = false ↔
      (t ∈ s.queue ∧ t.cancelled = false) ∧ t.seq ≠ seq := by
  constructor
  · rintro ⟨ht, hc⟩
    obtain ⟨u, hu, rfl⟩ := Array.mem_map.1 ht
    by_cases hs : u.seq = seq
    · rw [if_pos hs] at hc
      cases hc
    · rw [if_neg hs] at hc ⊢
      exact ⟨⟨hu, hc⟩, hs⟩
  · rintro ⟨⟨ht, hc⟩, hs⟩
    exact ⟨Array.mem_map.2 ⟨t, ht, if_neg hs⟩, hc⟩

theorem WF.cancel (h : s.WF) (seq : Nat) : (s.cancel seq).WF := by
  constructor
  · refine Heap.ordered_map (fun t => ?_) h.ordered
    split <;> rfl
  · intro t ht
    obtain ⟨u, hu, cancelled, rfl⟩ := mem_cancel ht
    exact h.numbered u hu
  · have hseqs : (s.cancel seq).queue.toList.map (·.seq) = s.queue.toList.map (·.seq) := by
      unfold Scheduler.cancel
      rw [Array.toList_map, List.map_map]
      refine List.map_congr_left fun t _ => ?_
      show (if t.seq = seq then { t with cancelled := true } else t).seq = t.seq
      split <;> rfl
    rw [hseqs]
    exact h.distinct
  · intro t ht
    obtain ⟨u, hu, cancelled, rfl⟩ := mem_cancel ht
    exact h.current u hu

/-! ## Leaving an epoch -/

theorem WF.advanceEpoch (s : Scheduler Rat π) : s.advanceEpoch.WF :=
  ⟨Heap.ordered_empty, fun t ht => absurd ht (Array.not_mem_empty t), List.nodup_nil,
    fun t ht => absurd ht (Array.not_mem_empty t)⟩

/-! ## Taking a task -/

/-- A task is taken from the front, once it is due. -/
theorem takeDue?_some {now : Rat} {t : Task Rat π} {rest : Scheduler Rat π}
    (h : s.takeDue? now = some (t, rest)) :
    ∃ hpos : 0 < s.queue.size, t = s.queue[0] ∧ t.due ≤ now ∧
      rest = { s with queue := Heap.dropFirst Task.before s.queue } := by
  unfold takeDue? at h
  split at h
  · next hpos =>
    split at h
    · next hdue =>
      cases h
      exact ⟨hpos, rfl, hdue, rfl⟩
    · cases h
  · cases h

/-- If no task is taken, none is due. -/
theorem WF.takeDue?_none (h : s.WF) {now : Rat} (hn : s.takeDue? now = none) :
    ∀ t ∈ s.queue, now < t.due := by
  intro t ht
  obtain ⟨i, hi, -⟩ := Array.mem_iff_getElem.1 ht
  have hpos : 0 < s.queue.size := (Nat.zero_le i).trans_lt hi
  unfold takeDue? at hn
  rw [dif_pos hpos] at hn
  split at hn
  · cases hn
  · next hdue =>
    have hfirst : now < s.queue[0].due := lt_of_not_ge hdue
    refine hfirst.trans_le ?_
    rcases Prod.Lex.toLex_le_toLex.1 (h.ordered.first_le_of_mem hpos ht) with hlt | ⟨he, -⟩
    · exact le_of_lt hlt
    · exact le_of_eq he

theorem mem_takeDue? {τ : Type} [Quantity τ] {s rest : Scheduler τ π} {now : τ} {t : Task τ π}
    (h : s.takeDue? now = some (t, rest)) (u : Task τ π) : u ∈ s.queue ↔ u = t ∨ u ∈ rest.queue := by
  rw [← Array.mem_toList_iff, ← Array.mem_toList_iff, ← (perm_takeDue? h).mem_iff, List.mem_cons]

/-- Whatever is left comes after the task that was taken, and has another number. -/
theorem WF.takeDue?_lt (h : s.WF) {now : Rat} {t : Task Rat π} {rest : Scheduler Rat π}
    (ht : s.takeDue? now = some (t, rest)) {u : Task Rat π} (hu : u ∈ rest.queue) :
    t.key < u.key ∧ u.seq ≠ t.seq := by
  have hseq : u.seq ≠ t.seq := by
    have hd := ((perm_takeDue? ht).map (·.seq)).nodup_iff.2 h.distinct
    rw [List.map_cons, List.nodup_cons] at hd
    intro he
    exact hd.1 (he ▸ List.mem_map_of_mem (Array.mem_toList_iff.2 hu))
  obtain ⟨hpos, rfl, -, -⟩ := takeDue?_some ht
  have hmem := (mem_takeDue? ht u).2 (.inr hu)
  exact ⟨Task.key_lt_of_le (h.ordered.first_le_of_mem hpos hmem) hseq.symm, hseq⟩

theorem WF.takeDue? (h : s.WF) {now : Rat} {t : Task Rat π} {rest : Scheduler Rat π}
    (ht : s.takeDue? now = some (t, rest)) : rest.WF := by
  have hmem := fun u hu => (mem_takeDue? ht u).2 (.inr hu)
  have hd := ((perm_takeDue? ht).map (·.seq)).nodup_iff.2 h.distinct
  obtain ⟨-, -, -, rfl⟩ := takeDue?_some ht
  refine ⟨Heap.ordered_dropFirst Task.before_iff h.ordered, fun u hu => h.numbered u (hmem u hu), ?_,
    fun u hu => h.current u (hmem u hu)⟩
  rw [List.map_cons, List.nodup_cons] at hd
  exact hd.2

end Scheduler

end PhaseMachine
