/-
Polls are complete. A poll reads the clock once, and whatever its callbacks schedule, cancel or poll in
the middle of it, it goes on until nothing is left that was due by that reading. So when it ends, each
task that waited at its start or was scheduled since, and is due by the reading, was started, or was
cancelled or dropped with its epoch while it still waited; and the poll has counted the tasks that it
started itself, not those of the polls inside it.
-/
import PhaseMachine.Proofs.Scheduler.Safety

namespace PhaseMachine.Script

/-! ## Sessions that come about -/

/-- A session is new, or that of any moment of a script that is run in one that came about before. -/
inductive Session.Reachable : Session Rat → Prop where
  | new (clock : Rat) : Reachable { clock }
  | run {s : Session Rat} (h : Reachable s) (script : List (Command Rat)) (n : Nat) :
      Reachable (Run.moment { session := s, stack := [.script script] } n).session

theorem Session.Reachable.wf {s : Session Rat} (h : s.Reachable) : s.scheduler.WF := by
  induction h with
  | new clock => exact Scheduler.wf_empty
  | run _ script n ih => exact ((ledger_waiting ih).moment (r := { session := _, stack := _ }) n).wf

namespace Run

/-! ## A poll under way -/

section

variable {τ : Type} [Quantity τ]

/-- The starts made in these steps with so many frames on the stack: by the poll that is the innermost
frame then, and not by those inside it. -/
def startsAt (r : Run τ) (depth : Nat) : Nat → List (Start τ)
  | 0 => []
  | n + 1 =>
    r.startsAt depth n ++ if (r.moment n).stack.length = depth then starts (r.moment n).act?.toList else []

/-- A poll with its reading and its count is under way on these frames, below whatever its callbacks are at. -/
def Polling (r : Run τ) (reading : τ) (count : Nat) (below : List (Frame τ)) : Prop :=
  ∃ inside, r.stack = inside ++ .poll reading count :: below

/-- The next command cannot be carried out. -/
def breaks (r : Run τ) : Bool :=
  match r.stack with
  | .script (.outOfRange :: _) :: _ => true
  | _ => false

/-- The next step ends a poll with its count: it finds nothing due by its reading. -/
def Ends (r : Run τ) (reading : τ) (count : Nat) (below : List (Frame τ)) : Prop :=
  r.session.scheduler.takeDue? reading = none ∧ r.act? = none ∧
    r.next? = some { r with stack := below, polled := count }

variable {r : Run τ} {reading : τ} {count : Nat} {below : List (Frame τ)}

/-- Every command but one leaves the frames under the script where they are. -/
theorem stack_perform {c : Command τ} {cs : List (Command τ)} (hs : r.stack = .script (c :: cs) :: below)
    (hc : r.breaks = false) :
    ∃ inside, ({ r with stack := .script cs :: below }.perform c).stack = inside ++ below := by
  cases c with
  | schedule tag delay callback => exact ⟨[.script cs], rfl⟩
  | cancel tag => exact ⟨[.script cs], rfl⟩
  | advance ms => exact ⟨[.script cs], rfl⟩
  | poll => exact ⟨[.poll r.session.clock 0, .script cs], rfl⟩
  | advanceEpoch => exact ⟨[.script cs], rfl⟩
  | outOfRange => simp [breaks, hs] at hc

/-- A frame above others goes on, and leaves the others where they are, or breaks off. -/
theorem next?_of_cons {f : Frame τ} (hs : r.stack = f :: below) (hc : r.breaks = false) :
    ∃ q inside, r.next? = some q ∧ q.stack = inside ++ below := by
  unfold next?
  rw [hs]
  cases f with
  | script rest =>
    cases rest with
    | nil => exact ⟨_, [], rfl, rfl⟩
    | cons c cs =>
      obtain ⟨inside, hi⟩ := stack_perform hs hc
      exact ⟨_, inside, rfl, hi⟩
  | poll reading count =>
    dsimp only
    split
    · exact ⟨_, [], rfl, rfl⟩
    · next task rest _ =>
      split
      · exact ⟨_, [.script task.payload.script, .poll reading (count + 1)], rfl, rfl⟩
      · exact ⟨_, [.poll reading count], rfl, rfl⟩

/-- A poll under way breaks off, ends, or stays under way and counts the start that it made itself. -/
theorem Polling.next (h : r.Polling reading count below) :
    r.breaks = true ∨ r.Ends reading count below ∨ ∃ q, r.next? = some q ∧
      q.Polling reading (count + if r.stack.length = below.length + 1 then (starts r.act?.toList).length else 0)
        below := by
  rcases r.breaks.eq_false_or_eq_true with hb | hb
  · exact .inl hb
  obtain ⟨_ | ⟨f, inside⟩, hs⟩ := h
  · -- the poll itself is the innermost frame
    rw [List.nil_append] at hs
    refine .inr ?_
    rw [if_pos (by rw [hs, List.length_cons])]
    unfold Ends next? act?
    rw [hs]
    dsimp only
    cases ht : r.session.scheduler.takeDue? reading with
    | none => exact .inl ⟨rfl, rfl, rfl⟩
    | some taken =>
      obtain ⟨task, rest⟩ := taken
      refine .inr ?_
      dsimp only
      split
      · exact ⟨_, rfl, [.script task.payload.script], rfl⟩
      · exact ⟨_, rfl, [], rfl⟩
  · refine .inr (.inr ?_)
    have hdeeper : r.stack.length ≠ below.length + 1 := by
      simp only [hs, List.length_append, List.length_cons]
      omega
    rw [if_neg hdeeper]
    obtain ⟨q, more, hq, hstack⟩ := next?_of_cons hs hb
    exact ⟨q, hq, more ++ inside, by rw [hstack, List.append_assoc]; rfl⟩

/-- So a poll that is under way stays so, with the count of its own starts, until it breaks off or ends.
It comes to that, since every step leaves less to do. -/
theorem Polling.exists_end {m : Nat}
    (h : (r.moment m).Polling reading (r.startsAt (below.length + 1) m).length below) :
    ∃ k, m ≤ k ∧
      (∀ n, m ≤ n → n ≤ k → (r.moment n).Polling reading (r.startsAt (below.length + 1) n).length below) ∧
      ((r.moment k).breaks = true ∨ (r.moment k).Ends reading (r.startsAt (below.length + 1) k).length below) := by
  induction hw : (r.moment m).weight using Nat.strong_induction_on generalizing m with
  | h w ih =>
    have hhere : ∀ n, m ≤ n → n ≤ m →
        (r.moment n).Polling reading (r.startsAt (below.length + 1) n).length below := by
      intro n hmn hnm
      obtain rfl := Nat.le_antisymm hmn hnm
      exact h
    rcases h.next with hb | he | ⟨q, hq, hpolling⟩
    · exact ⟨m, le_refl m, hhere, .inl hb⟩
    · exact ⟨m, le_refl m, hhere, .inr he⟩
    · have hmoment : r.moment (m + 1) = q := by
        show (r.moment m).next?.getD (r.moment m) = q
        rw [hq, Option.getD_some]
      have hcount : (r.startsAt (below.length + 1) (m + 1)).length =
          (r.startsAt (below.length + 1) m).length +
            if (r.moment m).stack.length = below.length + 1 then (starts (r.moment m).act?.toList).length else 0 := by
        rw [startsAt, List.length_append]
        split <;> rfl
      have hless : (r.moment (m + 1)).weight < w := by
        rw [hmoment, ← hw]
        exact weight_next? hq
      rw [← hmoment, ← hcount] at hpolling
      obtain ⟨k, hk, hall, hend⟩ := ih _ hless hpolling rfl
      refine ⟨k, (Nat.le_succ m).trans hk, fun n hmn hnk => ?_, hend⟩
      rcases Nat.lt_or_ge m n with hlt | hge
      · exact hall n hlt hnk
      · exact hhere n hmn hge

/-- A command to poll puts the poll on the stack and starts nothing yet. -/
theorem polling_of_command {cs : List (Command τ)} (hs : r.stack = .script (.poll :: cs) :: below) :
    (r.moment 1).Polling r.session.clock (r.startsAt (r.stack.length + 1) 1).length (.script cs :: below) := by
  have hnone : r.startsAt (r.stack.length + 1) 1 = [] := by
    show [] ++ (if r.stack.length = r.stack.length + 1 then starts r.act?.toList else []) = []
    rw [if_neg (Nat.ne_of_lt (Nat.lt_succ_self _)), List.append_nil]
  have hnext : r.next? = some { r with stack := .poll r.session.clock 0 :: .script cs :: below } := by
    unfold next?
    rw [hs]
    rfl
  refine ⟨[], ?_⟩
  rw [hnone]
  show (r.next?.getD r).stack = _
  rw [hnext]
  rfl

end

/-- The session lists what was started. -/
theorem started_moment (r : Run Rat) (n : Nat) :
    (r.moment n).session.started = r.session.started ++ starts (r.acts n) := by
  induction n with
  | zero => exact (List.append_nil _).symm
  | succ n ih =>
    rcases r.moment_succ_cases n with ⟨q, hq, hmoment⟩ | ⟨hmoment, hacts⟩
    · rw [hmoment, (turn hq).started_eq, ih, List.append_assoc]
      exact congrArg _ List.filterMap_append.symm
    · rw [hmoment, hacts]
      exact ih

end Run

/-! ## Complete polls -/

/-- In a session that comes about all tasks of the queue are of the current epoch, so the pending ones are
those that were not cancelled. Take a run whose next command is a poll there. From its first step to some
step the poll is under way, its count being that of the starts it made itself. There a command comes up
that cannot be carried out, or the poll ends: the script goes on with that count, no task that is left is
due by the time read at the start, and each task due by then that waited at the start or was scheduled
since was started, or was cancelled or dropped with its epoch while it waited. -/
theorem poll_settles_due {s : Session Rat} (hs : s.Reachable) :
    (∀ t ∈ s.scheduler.queue, t.epoch = s.scheduler.epoch) ∧
    s.scheduler.pending = (s.scheduler.queue.filter fun t => !t.cancelled).size ∧
    ∀ (r : Run Rat) (cs : List (Command Rat)) (below : List (Frame Rat)),
      r.session = s → r.stack = .script (.poll :: cs) :: below →
      ∃ k, (∀ n, 0 < n → n ≤ k → (r.moment n).Polling s.clock
          (r.startsAt (r.stack.length + 1) n).length (.script cs :: below)) ∧
        ((r.moment k).breaks = true ∨
          let left := r.moment (k + 1)
          let acts := s.waiting.map .scheduled ++ r.acts (k + 1)
          left.stack = .script cs :: below ∧
          left.polled = (r.startsAt (r.stack.length + 1) (k + 1)).length ∧
          left.session.started = s.started ++ starts (r.acts (k + 1)) ∧
          (∀ t ∈ left.session.scheduler.queue, s.clock < t.due) ∧
          ∀ t, t ∈ s.waiting ∨ .scheduled t ∈ r.acts (k + 1) → t.due ≤ s.clock →
            (∃ reading, Closed acts (.started ⟨t, reading⟩) t) ∨
              Closed acts (.cancelled t.seq) t ∨ Closed acts .left t) := by
  have hwf := hs.wf
  refine ⟨hwf.current, ?_, ?_⟩
  · have hlive : ∀ t ∈ s.scheduler.queue, s.scheduler.live t = !t.cancelled := by
      intro t ht
      simp [Scheduler.live, hwf.current t ht]
    refine congrArg Array.size (Array.ext' ?_)
    rw [Array.toList_filter, Array.toList_filter]
    exact List.filter_congr fun t ht => hlive t (Array.mem_toList_iff.1 ht)
  · rintro r cs below rfl hstack
    have hdepth : r.stack.length + 1 = (Frame.script cs :: below).length + 1 := by
      rw [hstack]
      simp
    obtain ⟨k, hk, hall, hend⟩ := (hdepth ▸ Run.polling_of_command hstack).exists_end
    rw [← hdepth] at hall hend
    refine ⟨k, fun n hn => hall n hn, ?_⟩
    rcases hend with hbreaks | ⟨hnone, hact, hnext⟩
    · exact .inl hbreaks
    · right
      intro left acts
      have hleft : left = { r.moment k with
          stack := .script cs :: below, polled := (r.startsAt (r.stack.length + 1) k).length } := by
        show (r.moment k).next?.getD (r.moment k) = _
        rw [hnext]
        rfl
      have hledger : Ledger acts left.session.scheduler := (ledger_waiting hwf).moment (k + 1)
      have hlater : ∀ t ∈ left.session.scheduler.queue, r.session.clock < t.due := by
        refine hledger.wf.takeDue?_none ?_
        rw [hleft]
        exact hnone
      refine ⟨by rw [hleft], ?_, r.started_moment (k + 1), hlater, fun t ht hdue => ?_⟩
      · have hsame : r.startsAt (r.stack.length + 1) (k + 1) = r.startsAt (r.stack.length + 1) k := by
          rw [Run.startsAt, hact]
          split <;> exact List.append_nil _
        rw [hsame, hleft]
      · have hmem : .scheduled t ∈ acts := by
          rcases ht with ht | ht
          · exact List.mem_append_left _ (List.mem_map_of_mem ht)
          · exact List.mem_append_right _ ht
        rcases hledger.waits_or_closed hmem with hin | hclosed
        · exact absurd hdue (not_le.2 (hlater t hin))
        · exact hclosed

/-- The first poll of the nested script reads 15. It counts the one task that it started itself, although
one that came up in the middle was started too, by the poll of the callback; the two tasks that are left
are due later. -/
theorem poll_settles_due_nested :
    let r := (opening 0 nestedScript).moment 5
    let left := r.moment 11
    let acts := r.session.waiting.map .scheduled ++ r.acts 11
    r.session.Reachable ∧ r.session.clock = 15 ∧ r.session.waiting.length = 4 ∧
    left.session.ran = ["first", "inner"] ∧ left.polled = 1 ∧
    (r.startsAt 2 11).map (·.task.payload.tag) = ["first"] ∧
    left.session.scheduler.pending = 2 ∧ (∀ t ∈ left.session.scheduler.queue, 15 < t.due) ∧
    ∀ t, t ∈ r.session.waiting ∨ .scheduled t ∈ r.acts 11 → t.due ≤ 15 →
      (∃ reading, Closed acts (.started ⟨t, reading⟩) t) ∨
        Closed acts (.cancelled t.seq) t ∨ Closed acts .left t := by
  intro r left acts
  have hr : r.session.Reachable := .run (.new 0) nestedScript 5
  have hclock : r.session.clock = 15 := by decide +kernel
  obtain ⟨-, -, hpoll⟩ := poll_settles_due hr
  obtain ⟨k, hunder, hend⟩ := hpoll r _ _ rfl rfl
  -- the poll is under way at most as long as there is a frame above the script
  have hle : k ≤ 10 := by
    by_contra hlt
    obtain ⟨inside, hs⟩ := hunder 11 (by decide) (by omega)
    have hlength := congrArg List.length hs
    rw [show (r.moment 11).stack.length = 1 by decide +kernel] at hlength
    simp at hlength
  have hwhole : ∀ n < 11, (r.moment n).breaks = false := by decide +kernel
  have hdeep : ∀ n < 10, (r.moment (n + 1)).stack.length ≠ 1 := by decide +kernel
  rcases hend with hbreaks | ⟨hstack, -, -, hlater, hsettled⟩
  · rw [hwhole k (by omega)] at hbreaks
    cases hbreaks
  · obtain rfl : k = 10 := by
      by_contra hne
      exact hdeep k (by omega) (congrArg List.length hstack)
    rw [hclock] at hlater hsettled
    exact ⟨hr, hclock, by decide +kernel, by decide +kernel, by decide +kernel, by decide +kernel,
      by decide +kernel, hlater, hsettled⟩

end PhaseMachine.Script
