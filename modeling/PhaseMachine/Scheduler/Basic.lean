/-
Deferred tasks. A task is due at a time, and tasks come in the order of their due times, those due
at one time in the order in which they were scheduled. Every task belongs to the epoch in which it
was scheduled; leaving an epoch drops its tasks.
-/
import PhaseMachine.Log.Event
import PhaseMachine.Number.Quantity
import PhaseMachine.Scheduler.Heap

namespace PhaseMachine

structure Task (τ π : Type) where
  due : τ
  seq : Nat
  epoch : Nat
  payload : π
  cancelled : Bool := false
deriving Repr

def Task.before {τ π : Type} [Quantity τ] (a b : Task τ π) : Bool :=
  a.due < b.due || a.due ≤ b.due && b.due ≤ a.due && a.seq < b.seq

/-- The tasks in a heap, the number of the next task, and the current epoch. -/
structure Scheduler (τ π : Type) where
  queue : Array (Task τ π) := #[]
  nextSeq : Nat := 0
  epoch : Nat := 0
deriving Repr

namespace Scheduler

variable {τ π : Type} [Quantity τ]

/-- The task that scheduling adds. A negative delay counts as none. -/
def newTask (s : Scheduler τ π) (now delay : τ) (payload : π) : Task τ π :=
  { due := now + Quantity.atLeast Quantity.zero delay, seq := s.nextSeq, epoch := s.epoch, payload }

def schedule (s : Scheduler τ π) (now delay : τ) (payload : π) : Scheduler τ π :=
  { s with
    queue := Heap.push Task.before s.queue (s.newTask now delay payload)
    nextSeq := s.nextSeq + 1 }

/-- Cancels the task of a number, if it is still in the queue. -/
def cancel (s : Scheduler τ π) (seq : Nat) : Scheduler τ π :=
  { s with queue := s.queue.map fun t => if t.seq = seq then { t with cancelled := true } else t }

/-- Leaves the current epoch and all its tasks. -/
def advanceEpoch (s : Scheduler τ π) : Scheduler τ π :=
  { s with queue := #[], epoch := s.epoch + 1 }

def epochLog (s : Scheduler τ π) : List Event :=
  if s.queue.isEmpty then [] else [.dropped s.queue.size (s.epoch + 1)]

/-- Whether a task is still to run. -/
def live (s : Scheduler τ π) (t : Task τ π) : Bool :=
  !t.cancelled && t.epoch == s.epoch

def pending (s : Scheduler τ π) : Nat :=
  (s.queue.filter s.live).size

/-- The first task and the queue without it, if the task is due. -/
def takeDue? (s : Scheduler τ π) (now : τ) : Option (Task τ π × Scheduler τ π) :=
  if h : 0 < s.queue.size then
    if s.queue[0].due ≤ now then
      some (s.queue[0], { s with queue := Heap.dropFirst Task.before s.queue })
    else none
  else none

theorem perm_takeDue? {s rest : Scheduler τ π} {now : τ} {t : Task τ π}
    (h : s.takeDue? now = some (t, rest)) : (t :: rest.queue.toList).Perm s.queue.toList := by
  unfold takeDue? at h
  split at h
  case isTrue hpos =>
    split at h
    · cases h
      exact Heap.perm_dropFirst Task.before s.queue hpos
    · cases h
  case isFalse => cases h

theorem size_takeDue? {s rest : Scheduler τ π} {now : τ} {t : Task τ π}
    (h : s.takeDue? now = some (t, rest)) : rest.queue.size < s.queue.size := by
  have := (perm_takeDue? h).length_eq
  rw [List.length_cons, Array.length_toList, Array.length_toList] at this
  omega

/-- All due tasks that are still to run, in order, and what is left. -/
def drain (s : Scheduler τ π) (now : τ) : List (Task τ π) × Scheduler τ π :=
  match _htake : s.takeDue? now with
  | none => ([], s)
  | some (t, rest) =>
    let (tasks, left) := rest.drain now
    (if rest.live t then t :: tasks else tasks, left)
termination_by s.queue.size
decreasing_by exact size_takeDue? _htake

theorem drain_of_none {s : Scheduler τ π} {now : τ} (h : s.takeDue? now = none) :
    s.drain now = ([], s) := by
  rw [drain]
  split
  · rfl
  · next htake => rw [h] at htake; cases htake

theorem drain_of_some {s rest : Scheduler τ π} {now : τ} {t : Task τ π}
    (h : s.takeDue? now = some (t, rest)) :
    s.drain now =
      (if rest.live t then t :: (rest.drain now).1 else (rest.drain now).1, (rest.drain now).2) := by
  rw [drain]
  split
  · next htake => rw [h] at htake; cases htake
  · next htake => rw [h] at htake; cases htake; rfl

end Scheduler

end PhaseMachine
