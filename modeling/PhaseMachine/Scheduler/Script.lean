/-
Scripts of scheduler operations. The callback of a task is itself a script, run in the middle of
the poll that starts the task, so it may schedule, cancel, move the clock, leave the epoch or poll
again. A run keeps what is still to do on a stack: rests of scripts, and polls under way, each with
the clock reading that it started from. A command that cannot be carried out breaks all of this off.
Every step uses up commands, so every run ends.
-/
import PhaseMachine.Scheduler.Basic

namespace PhaseMachine.Script

/-- An operation on a scheduler and its clock. A task is cancelled by its tag. -/
inductive Command (τ : Type) where
  | schedule (tag : String) (delay : τ) (callback : List (Command τ))
  | cancel (tag : String)
  | advance (ms : τ)
  | poll
  | advanceEpoch
  /-- An operation with a time out of range, which cannot be carried out. -/
  | outOfRange

/-- What a task runs, and the tag it is known by. -/
structure Callback (τ : Type) where
  tag : String
  script : List (Command τ)

/-- A task that was started, and the clock reading of the poll that started it. -/
structure Start (τ : Type) where
  task : Task τ (Callback τ)
  reading : τ

/-- A scheduler with its clock, the latest task of each tag, latest first, and the tasks started so
far. -/
structure Session (τ : Type) where
  scheduler : Scheduler τ (Callback τ) := {}
  clock : τ
  tagged : List (String × Nat) := []
  started : List (Start τ) := []

/-- What is still to do: the rest of a script, or a poll under way with the tasks it has run. -/
inductive Frame (τ : Type) where
  | script (rest : List (Command τ))
  | poll (reading : τ) (count : Nat)

/-- A run under way: the stack with the innermost frame first, the count of the poll that ended
last, and the log. A run that was broken off has nothing left to do. -/
structure Run (τ : Type) where
  session : Session τ
  stack : List (Frame τ)
  polled : Nat := 0
  brokenOff : Bool := false
  log : List Event := []

/-! ## How much is left to do -/

mutual

def Command.weight {τ : Type} : Command τ → Nat
  | .schedule _ _ callback => 3 + weights callback
  | _ => 3

def weights {τ : Type} : List (Command τ) → Nat
  | [] => 0
  | c :: rest => c.weight + weights rest

end

def Frame.weight {τ : Type} : Frame τ → Nat
  | script rest => 1 + weights rest
  | poll _ _ => 1

def taskWeight {τ : Type} (t : Task τ (Callback τ)) : Nat :=
  2 + weights t.payload.script

/-- The weights of all members of a list together. -/
def total {α : Type} (weight : α → Nat) : List α → Nat
  | [] => 0
  | a :: rest => weight a + total weight rest

theorem total_perm {α : Type} (weight : α → Nat) {as bs : List α} (h : as.Perm bs) :
    total weight as = total weight bs := by
  induction h with
  | nil => rfl
  | cons a _ ih => rw [total, total, ih]
  | swap a b rest => simp only [total]; omega
  | trans _ _ ih₁ ih₂ => rw [ih₁, ih₂]

theorem total_map {α : Type} (weight : α → Nat) (f : α → α) (hf : ∀ a, weight (f a) = weight a)
    (as : List α) : total weight (as.map f) = total weight as := by
  induction as with
  | nil => rfl
  | cons a rest ih => rw [List.map_cons, total, total, hf, ih]

def queueWeight {τ : Type} (q : Array (Task τ (Callback τ))) : Nat :=
  total taskWeight q.toList

def Run.weight {τ : Type} (r : Run τ) : Nat :=
  total Frame.weight r.stack + queueWeight r.session.scheduler.queue

/-! ## Steps -/

variable {τ : Type} [Quantity τ]

namespace Session

/-- The task that a command to schedule adds. -/
def newTask (s : Session τ) (delay : τ) (callback : Callback τ) : Task τ (Callback τ) :=
  s.scheduler.newTask s.clock delay callback

def schedule (s : Session τ) (delay : τ) (callback : Callback τ) : Session τ :=
  { s with
    scheduler := s.scheduler.schedule s.clock delay callback
    tagged := (callback.tag, s.scheduler.nextSeq) :: s.tagged }

/-- Cancels the task that was scheduled last with a tag. -/
def cancel (s : Session τ) (tag : String) : Session τ :=
  match s.tagged.lookup tag with
  | some seq => { s with scheduler := s.scheduler.cancel seq }
  | none => s

def start (s : Session τ) (reading : τ) (task : Task τ (Callback τ)) : Session τ :=
  { s with started := s.started ++ [⟨task, reading⟩] }

def ran (s : Session τ) : List String :=
  s.started.map (·.task.payload.tag)

end Session

namespace Run

/-- The run after one command, which stands no longer on the stack. -/
def perform (r : Run τ) : Command τ → Run τ
  | .schedule tag delay callback => { r with session := r.session.schedule delay ⟨tag, callback⟩ }
  | .cancel tag => { r with session := r.session.cancel tag }
  | .advance ms => { r with session := { r.session with clock := r.session.clock + ms } }
  | .poll => { r with stack := .poll r.session.clock 0 :: r.stack }
  | .advanceEpoch =>
    { r with
      session := { r.session with scheduler := r.session.scheduler.advanceEpoch }
      log := r.log ++ r.session.scheduler.epochLog }
  | .outOfRange => { r with stack := [], brokenOff := true }

/-- One step: a command of the innermost script, or one task of the innermost poll. -/
def next? (r : Run τ) : Option (Run τ) :=
  match r.stack with
  | [] => none
  | .script [] :: rest => some { r with stack := rest }
  | .script (c :: cs) :: rest => some ({ r with stack := .script cs :: rest }.perform c)
  | .poll reading count :: rest =>
    match r.session.scheduler.takeDue? reading with
    | none => some { r with stack := rest, polled := count }
    | some (task, scheduler) =>
      let session := { r.session with scheduler }
      if scheduler.live task then
        some { r with
          session := session.start reading task
          stack := .script task.payload.script :: .poll reading (count + 1) :: rest }
      -- a task that is not to run any more is passed over
      else some { r with session }

/-! ## Every run ends -/

theorem queueWeight_schedule (s : Scheduler τ (Callback τ)) (now delay : τ) (c : Callback τ) :
    queueWeight (s.schedule now delay c).queue = queueWeight s.queue + 2 + weights c.script := by
  have := total_perm taskWeight (Heap.perm_push Task.before s.queue (s.newTask now delay c))
  rw [total, show taskWeight (s.newTask now delay c) = 2 + weights c.script from rfl] at this
  rw [queueWeight, Scheduler.schedule, this, queueWeight]
  omega

omit [Quantity τ] in
theorem queueWeight_cancel (s : Scheduler τ (Callback τ)) (seq : Nat) :
    queueWeight (s.cancel seq).queue = queueWeight s.queue := by
  simp only [queueWeight, Scheduler.cancel, Array.toList_map]
  refine total_map taskWeight _ (fun t => ?_) _
  simp only [taskWeight]
  split <;> rfl

theorem queueWeight_takeDue? {s rest : Scheduler τ (Callback τ)} {now : τ}
    {t : Task τ (Callback τ)} (h : s.takeDue? now = some (t, rest)) :
    queueWeight s.queue = taskWeight t + queueWeight rest.queue := by
  have := total_perm taskWeight (Scheduler.perm_takeDue? h)
  rw [total] at this
  exact this.symm

theorem weight_perform (r : Run τ) (c : Command τ) : (r.perform c).weight < r.weight + c.weight := by
  cases c with
  | schedule tag delay callback =>
    simp only [perform, weight, Session.schedule, queueWeight_schedule, Command.weight]
    omega
  | cancel tag =>
    simp only [perform, weight, Session.cancel, Command.weight]
    split
    · rw [queueWeight_cancel]; omega
    · omega
  | advance ms => simp only [perform, weight, Command.weight]; omega
  | poll =>
    simp only [perform, weight, Command.weight, total, Frame.weight]
    omega
  | advanceEpoch =>
    simp only [perform, weight, Command.weight, Scheduler.advanceEpoch, queueWeight]
    simp only [total]
    omega
  | outOfRange => simp only [perform, weight, Command.weight, total]; omega

/-- Every step leaves less to do. -/
theorem weight_next? {r q : Run τ} (h : r.next? = some q) : q.weight < r.weight := by
  unfold next? at h
  split at h
  · cases h
  · next rest hr =>
    cases h
    simp only [weight, hr, total, Frame.weight, weights]
    omega
  · next c cs rest hr =>
    cases h
    have hc := weight_perform { r with stack := .script cs :: rest } c
    simp only [weight, hr, total, Frame.weight, weights] at hc ⊢
    omega
  · next reading count rest hr =>
    split at h
    · cases h
      simp only [weight, hr, total, Frame.weight]
      omega
    · next task scheduler htake =>
      have hw := queueWeight_takeDue? htake
      simp only [taskWeight] at hw
      split at h
      · cases h
        simp only [weight, hr, total, Frame.weight, Session.start]
        omega
      · cases h
        simp only [weight, hr, total, Frame.weight]
        omega

def finish (r : Run τ) : Run τ :=
  match _hnext : r.next? with
  | none => r
  | some q => q.finish
termination_by r.weight
decreasing_by exact weight_next? _hnext

end Run

/-- A script run in a session from its start to its end. -/
def Session.run (s : Session τ) (script : List (Command τ)) : Run τ :=
  Run.finish { session := s, stack := [.script script] }

end PhaseMachine.Script
