/-
Numbers of tasks count only by their order, and epochs only by whether they are the current one. A
scheduler in which all numbers and epochs are moved on by the same amounts keeps its tasks in the same
places of the heap, runs the same ones in the same order, and has as many of them pending.
-/
import PhaseMachine.Scheduler.Basic
import Mathlib.Tactic

namespace PhaseMachine

/-! ## Heaps under a map that keeps the order -/

namespace Heap

variable {α : Type} {before : α → α → Bool} {f : α → α}

theorem map_swapIfInBounds (h : Array α) (i j : Nat) :
    (h.map f).swapIfInBounds i j = (h.swapIfInBounds i j).map f := by
  rw [Array.swapIfInBounds_def, Array.swapIfInBounds_def]
  by_cases hi : i < h.size
  · by_cases hj : j < h.size
    · simp only [Array.size_map, hi, hj, dif_pos]
      apply Array.ext_getElem?
      intro k
      simp only [Array.getElem?_map, Array.getElem?_swap, Array.getElem_map]
      split
      · rfl
      · split <;> rfl
    · simp [hi, hj]
  · simp [hi]

section

variable (hf : ∀ a b, before (f a) (f b) = before a b)

include hf

theorem precedes_map (h : Array α) (i j : Nat) :
    precedes before (h.map f) i j = precedes before h i j := by
  unfold precedes
  rw [Array.getElem?_map, Array.getElem?_map]
  cases h[i]? with
  | none => rfl
  | some a =>
    cases h[j]? with
    | none => rfl
    | some b => exact hf a b

theorem rise_map (h : Array α) (i : Nat) : rise before (h.map f) i = (rise before h i).map f := by
  fun_induction rise before h i with
  | case1 h i hpos hrise ih =>
    rw [rise, dif_pos hpos, precedes_map hf, if_pos hrise, map_swapIfInBounds]
    exact ih
  | case2 h i hpos hstay =>
    rw [rise, dif_pos hpos, precedes_map hf, if_neg hstay]
  | case3 h i htop => rw [rise, dif_neg htop]

theorem smallerChild_map (h : Array α) (i : Nat) :
    smallerChild before (h.map f) i = smallerChild before h i := by
  unfold smallerChild
  rw [Array.size_map, precedes_map hf]

theorem sink_map (h : Array α) (i : Nat) : sink before (h.map f) i = (sink before h i).map f := by
  fun_induction sink before h i with
  | case1 h i hlt ih =>
    rw [sink, Array.size_map, if_pos hlt, smallerChild_map hf, map_swapIfInBounds]
    exact ih
  | case2 h i hleaf =>
    rw [sink, Array.size_map, if_neg hleaf]
    exact rise_map hf h i

theorem push_map (h : Array α) (a : α) : push before (h.map f) (f a) = (push before h a).map f := by
  unfold push
  rw [Array.size_map, ← Array.map_push]
  exact rise_map hf _ _

theorem dropFirst_map (h : Array α) : dropFirst before (h.map f) = (dropFirst before h).map f := by
  unfold dropFirst
  rw [Array.size_map, map_swapIfInBounds, ← Array.map_pop]
  exact sink_map hf _ _

end

end Heap

/-! ## Tasks and schedulers with other numbers -/

variable {τ π : Type}

/-- The task with its number and its epoch moved on. -/
def Task.renumber (numbers epochs : Nat) (t : Task τ π) : Task τ π :=
  { t with seq := t.seq + numbers, epoch := t.epoch + epochs }

/-- The scheduler with all numbers and epochs moved on. -/
def Scheduler.renumber (numbers epochs : Nat) (s : Scheduler τ π) : Scheduler τ π :=
  {
    queue := s.queue.map (Task.renumber numbers epochs)
    nextSeq := s.nextSeq + numbers, epoch := s.epoch + epochs
  }

variable {numbers epochs : Nat}

namespace Scheduler

theorem renumber_zero (s : Scheduler τ π) : s.renumber 0 0 = s := by
  have hid : (Task.renumber 0 0 : Task τ π → Task τ π) = id := rfl
  unfold renumber
  rw [hid, Array.map_id]
  rfl

theorem live_renumber (s : Scheduler τ π) (t : Task τ π) :
    (s.renumber numbers epochs).live (t.renumber numbers epochs) = s.live t := by
  have he : (t.epoch + epochs == s.epoch + epochs) = (t.epoch == s.epoch) := by
    rw [Bool.eq_iff_iff, beq_iff_eq, beq_iff_eq]
    omega
  show (!t.cancelled && (t.epoch + epochs == s.epoch + epochs)) = (!t.cancelled && t.epoch == s.epoch)
  rw [he]

theorem pending_renumber (s : Scheduler τ π) : (s.renumber numbers epochs).pending = s.pending := by
  have hlive : (s.renumber numbers epochs).live ∘ Task.renumber numbers epochs = s.live := by
    funext t
    exact s.live_renumber t
  show ((s.queue.map (Task.renumber numbers epochs)).filter (s.renumber numbers epochs).live).size = _
  rw [Array.filter_map, hlive, Array.size_map]
  rfl

theorem advanceEpoch_renumber (s : Scheduler τ π) :
    (s.renumber numbers epochs).advanceEpoch = s.advanceEpoch.renumber numbers epochs := by
  have he : s.epoch + epochs + 1 = s.epoch + 1 + epochs := by omega
  unfold advanceEpoch renumber
  rw [Array.map_empty, he]

variable [Quantity τ]

theorem before_renumber (a b : Task τ π) :
    (a.renumber numbers epochs).before (b.renumber numbers epochs) = a.before b := by
  have hs : decide (a.seq + numbers < b.seq + numbers) = decide (a.seq < b.seq) := by
    rw [decide_eq_decide]
    omega
  unfold Task.before Task.renumber
  dsimp only
  rw [hs]

theorem schedule_renumber (s : Scheduler τ π) (now delay : τ) (payload : π) :
    (s.renumber numbers epochs).schedule now delay payload =
      (s.schedule now delay payload).renumber numbers epochs := by
  have hn : s.nextSeq + numbers + 1 = s.nextSeq + 1 + numbers := by omega
  have hq := Heap.push_map (f := Task.renumber numbers epochs) before_renumber s.queue
    (s.newTask now delay payload)
  unfold schedule
  dsimp only [renumber]
  rw [hn, ← hq]
  rfl

/-- The same task is due first, if any. -/
theorem takeDue?_renumber (s : Scheduler τ π) (now : τ) :
    (s.renumber numbers epochs).takeDue? now =
      (s.takeDue? now).map fun p => (p.1.renumber numbers epochs, p.2.renumber numbers epochs) := by
  have hd := Heap.dropFirst_map (f := Task.renumber numbers epochs) before_renumber s.queue
  unfold takeDue?
  by_cases hpos : 0 < s.queue.size
  · have hpos' : 0 < (s.renumber numbers epochs).queue.size := by
      show 0 < (s.queue.map _).size
      rwa [Array.size_map]
    have hfirst : (s.renumber numbers epochs).queue[0] = s.queue[0].renumber numbers epochs :=
      Array.getElem_map ..
    have hdue : (s.queue[0].renumber numbers epochs).due = s.queue[0].due := rfl
    rw [dif_pos hpos, dif_pos hpos', hfirst, hdue]
    split
    · show some (s.queue[0].renumber numbers epochs, _) = some (s.queue[0].renumber numbers epochs, _)
      unfold renumber
      dsimp only
      rw [hd]
    · rfl
  · have hpos' : ¬ 0 < (s.renumber numbers epochs).queue.size := by
      show ¬ 0 < (s.queue.map _).size
      rwa [Array.size_map]
    rw [dif_neg hpos, dif_neg hpos']
    rfl

/-- A poll runs the same tasks in the same order and leaves the same ones. -/
theorem drain_renumber (s : Scheduler τ π) (now : τ) :
    (s.renumber numbers epochs).drain now =
      ((s.drain now).1.map (Task.renumber numbers epochs), (s.drain now).2.renumber numbers epochs) := by
  fun_induction drain s now with
  | case1 s h =>
    rw [drain_of_none (by rw [takeDue?_renumber, h]; rfl)]
    rfl
  | case2 s t rest h tasks left hrest ih =>
    have htaken : (s.renumber numbers epochs).takeDue? now =
        some (t.renumber numbers epochs, rest.renumber numbers epochs) := by
      rw [takeDue?_renumber, h]
      rfl
    rw [drain_of_some htaken, ih, live_renumber, hrest]
    split <;> rfl

end Scheduler

end PhaseMachine
