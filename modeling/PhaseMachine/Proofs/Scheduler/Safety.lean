/-
Safety of schedulers over exact times, through whole lives with a clock that never goes back. Whatever
callbacks do in the middle of polls, tasks start in the order of due time and number; a task that was
scheduled is waiting, was started once, was cancelled or was dropped, and only one of these; and none
starts before its time, after it was cancelled, or after its epoch was left.
-/
import PhaseMachine.Proofs.Scheduler.Account

namespace PhaseMachine.Script

/-! ## What becomes of a task -/

/-- The starts of the task of a number. -/
def Session.startsOf (s : Session Rat) (seq : Nat) : List (Start Rat) :=
  s.started.filter fun a => a.task.seq = seq

/-- What has become of a task. -/
inductive Fate where
  | pending | started | cancelled | dropped
deriving DecidableEq, Repr

/-- Whether it is what became of a task: it counts among the pending ones of the scheduler, it was started
once, or it was closed by a cancel or by leaving the epoch and never started. -/
def Fate.Holds (acts : List (Act Rat)) (s : Session Rat) (t : Task Rat (Callback Rat)) : Fate → Prop
  | pending => t ∈ s.scheduler.queue ∧ s.scheduler.live t = true ∧ s.startsOf t.seq = []
  | started => ∃ reading, s.startsOf t.seq = [⟨t, reading⟩]
  | cancelled => Closed acts (.cancelled t.seq) t ∧ s.startsOf t.seq = []
  | dropped => Closed acts .left t ∧ s.startsOf t.seq = []

/-- What an act that closes a task makes of it, and what it is without one. -/
def Fate.of : Option (Act Rat) → Fate
  | some (.started _) => started
  | some (.cancelled _) => cancelled
  | some .left => dropped
  | _ => pending

/-- The act that closed a task, or none if the task is open. -/
def Ending (acts : List (Act Rat)) (t : Task Rat (Callback Rat)) : Option (Act Rat) → Prop
  | some a => Closed acts a t
  | none => Open acts t

theorem Ending.unique {acts : List (Act Rat)} {t : Task Rat (Callback Rat)} (hd : (tasks acts).Nodup)
    {a b : Option (Act Rat)} (ha : Ending acts t a) (hb : Ending acts t b) : a = b := by
  cases a with
  | none =>
    cases b with
    | none => rfl
    | some b => exact absurd ha (Closed.unique hd hb).1
  | some a =>
    cases b with
    | none => exact absurd hb (Closed.unique hd ha).1
    | some b => rw [(Closed.unique hd ha).2 b hb]

namespace Account

variable {acts : List (Act Rat)} {s : Session Rat} {t : Task Rat (Callback Rat)}

/-- A start of the number of a task that was scheduled is a start of that task, which it closed. -/
theorem closed_of_start (h : Account acts s) (ht : .scheduled t ∈ acts) {a : Start Rat}
    (ha : a ∈ s.startsOf t.seq) : a.task = t ∧ Closed acts (.started a) t := by
  obtain ⟨hmem, hseq⟩ := List.mem_filter.1 ha
  have hseq : a.task.seq = t.seq := of_decide_eq_true hseq
  obtain ⟨earlier, later, hacts⟩ := List.append_of_mem (mem_starts.1 (h.started ▸ hmem))
  have hopen := (h.story.starts earlier a later hacts).1
  have htask : a.task = t := by
    refine h.story.eq_of_seq ?_ ht hseq
    rw [hacts]
    exact List.mem_append_left _ hopen.scheduled
  exact ⟨htask, earlier, later, hacts, htask ▸ hopen, hseq⟩

/-- A task is never started unless a start closed it. -/
theorem startsOf_eq_nil (h : Account acts s) (ht : .scheduled t ∈ acts)
    (hn : ∀ a, ¬ Closed acts (.started a) t) : s.startsOf t.seq = [] := by
  refine List.eq_nil_iff_forall_not_mem.2 fun a ha => ?_
  exact hn a (h.closed_of_start ht ha).2

/-- A start that closed a task is the only one of its number. -/
theorem startsOf_eq_singleton (h : Account acts s) {a : Start Rat} (hc : Closed acts (.started a) t) :
    a.task = t ∧ s.startsOf t.seq = [a] := by
  have hmem : a ∈ s.startsOf t.seq := by
    obtain ⟨earlier, later, hacts, -, hseq⟩ := hc
    have hin : a ∈ starts acts := mem_starts.2 (hacts ▸ List.mem_append_right _ (List.mem_cons_self ..))
    rw [h.started] at hin
    exact List.mem_filter.2 ⟨hin, decide_eq_true hseq⟩
  have hnodup : s.started.Nodup := by
    refine h.increasing.imp fun hlt => ?_
    rintro rfl
    exact lt_irrefl _ hlt
  refine ⟨(h.closed_of_start hc.scheduled hmem).1, ?_⟩
  -- a list without repetitions that has one member is the list of that member
  refine List.perm_singleton.1 ((List.perm_ext_iff_of_nodup (hnodup.filter _) (List.nodup_singleton a)).2 ?_)
  intro b
  rw [List.mem_singleton]
  constructor
  · intro hb
    have := (Closed.unique h.story.nodup_tasks hc).2 _ (h.closed_of_start hc.scheduled hb).2
    cases this
    rfl
  · rintro rfl
    exact hmem

/-- What became of a task is what the act that closed it made of it. -/
theorem holds_iff (h : Account acts s) (ht : .scheduled t ∈ acts) (f : Fate) :
    f.Holds acts s t ↔ ∃ a, Ending acts t a ∧ Fate.of a = f := by
  have hunstarted : ∀ a, Ending acts t a → Fate.of a ≠ .started → s.startsOf t.seq = [] := by
    intro a ha hne
    refine h.startsOf_eq_nil ht fun b hb => hne ?_
    rw [Ending.unique h.story.nodup_tasks ha (b := some (.started b)) hb]
    rfl
  constructor
  · intro hf
    cases f with
    | pending =>
      obtain ⟨hin, hlive, -⟩ := hf
      exact ⟨none, (h.waiting t).2 ⟨hin, (h.wf.live_iff hin).1 hlive⟩, rfl⟩
    | started =>
      obtain ⟨reading, hs⟩ := hf
      have hmem : (⟨t, reading⟩ : Start Rat) ∈ s.startsOf t.seq := hs ▸ List.mem_singleton_self _
      exact ⟨some (.started ⟨t, reading⟩), (h.closed_of_start ht hmem).2, rfl⟩
    | cancelled => exact ⟨some (.cancelled t.seq), hf.1, rfl⟩
    | dropped => exact ⟨some .left, hf.1, rfl⟩
  · rintro ⟨a, ha, rfl⟩
    have hnone := hunstarted a ha
    cases a with
    | none =>
      obtain ⟨hin, hc⟩ := (h.waiting t).1 ha
      exact ⟨hin, (h.wf.live_iff hin).2 hc, hnone (by decide)⟩
    | some a =>
      have hc : Closed acts a t := ha
      have hends : a.Ends t := by
        obtain ⟨-, -, -, -, he⟩ := hc
        exact he
      cases a with
      | scheduled u => exact hends.elim
      | cancelled n => exact ⟨hends ▸ hc, hnone (by simp [Fate.of])⟩
      | left => exact ⟨hc, hnone (by simp [Fate.of])⟩
      | started b =>
        obtain ⟨htask, hs⟩ := h.startsOf_eq_singleton hc
        subst htask
        exact ⟨b.reading, hs⟩

theorem existsUnique_fate (h : Account acts s) (ht : .scheduled t ∈ acts) : ∃! f, Fate.Holds acts s t f := by
  obtain ⟨a, ha⟩ : ∃ a, Ending acts t a := by
    rcases open_or_closed ht with ho | ⟨a, ha⟩
    · exact ⟨none, ho⟩
    · exact ⟨some a, ha⟩
  refine ⟨Fate.of a, (h.holds_iff ht _).2 ⟨a, ha, rfl⟩, fun f hf => ?_⟩
  obtain ⟨b, hb, rfl⟩ := (h.holds_iff ht f).1 hf
  rw [Ending.unique h.story.nodup_tasks hb ha]

end Account

/-! ## Whole lives -/

/-- A new scheduler at a reading of the clock, with a script to carry out. -/
def opening (clock : Rat) (script : List (Command Rat)) : Run Rat :=
  { session := { clock }, stack := [.script script] }

/-- Take any script that never moves the clock back, nor does any callback in it. The run of the script
ends at one of its moments. At every moment of it, in the middle of polls too: the tasks were numbered in
the order they were scheduled; the starts, which are those that the session lists, come in strictly
increasing order of due time and number; exactly one thing has become of each task; and each start was
of a task that the poll had found due by its reading of the clock, that was never cancelled before, and
whose epoch was not left since it was scheduled. -/
theorem scheduler_safe (clock : Rat) {script : List (Command Rat)} (hf : areForward script = true) :
    (∃ last, Session.run { clock } script = (opening clock script).moment last) ∧
    ∀ n, let acts := (opening clock script).acts n
      let s := ((opening clock script).moment n).session
      (tasks acts).map (·.seq) = List.range s.scheduler.nextSeq ∧
      starts acts = s.started ∧
      s.started.Pairwise (fun a b =>
        a.task.due < b.task.due ∨ a.task.due = b.task.due ∧ a.task.seq < b.task.seq) ∧
      (∀ t, .scheduled t ∈ acts → ∃! f, Fate.Holds acts s t f) ∧
      ∀ earlier a later, acts = earlier ++ .started a :: later →
        a.task.due ≤ a.reading ∧ a.reading ≤ s.clock ∧ .cancelled a.task.seq ∉ earlier ∧
        ∃ before since, earlier = before ++ .scheduled a.task :: since ∧ .left ∉ since := by
  refine ⟨?_, fun n => ?_⟩
  · obtain ⟨last, hlast, -⟩ := (opening clock script).finish_eq_moment
    exact ⟨last, hlast⟩
  · have hopening : (opening clock script).Accounted [] := by
      refine ⟨account_nil clock, fun f hmem => ?_⟩
      rw [List.mem_singleton.1 hmem]
      exact hf
    have h := (hopening.moment n).session
    refine ⟨h.story.numbers, h.started, h.increasing.imp fun hlt => Task.key_lt_iff.1 hlt,
      fun t ht => h.existsUnique_fate ht, fun earlier a later hacts => ?_⟩
    obtain ⟨⟨before, since, hearlier, hopen⟩, hcancelled⟩ := h.story.starts earlier a later hacts
    have hstarted : a ∈ ((opening clock script).moment n).session.started := by
      rw [← h.started, hacts]
      exact mem_starts.2 (List.mem_append_right _ (List.mem_cons_self ..))
    obtain ⟨hdue, hread⟩ := h.read a hstarted
    exact ⟨hdue, hread, hcancelled, before, since, hearlier, fun hl => hopen _ hl trivial⟩

/-- A callback schedules a task that is due at once, cancels one that is due with it, and polls; another
one leaves the epoch with a task still waiting. -/
def nestedScript : List (Command Rat) :=
  [.schedule "first" 5 [.schedule "inner" 0 [], .cancel "second", .poll],
    .schedule "second" 5 [], .schedule "leaver" 20 [.advanceEpoch], .schedule "last" 30 [],
    .advance 15, .poll, .advance 10, .poll, .schedule "after" 1 []]

/-- What that script leads to: three starts in order, the inner one before the poll it came up in had
ended, and four tasks that were never started. -/
theorem scheduler_safe_nested :
    let r := Session.run { clock := (0 : Rat) } nestedScript
    r.session.ran = ["first", "inner", "leaver"] ∧
    r.session.started.map (fun a => (a.task.due, a.task.seq, a.reading)) = [(5, 0, 15), (15, 4, 15), (20, 2, 25)] ∧
    r.session.scheduler.pending = 1 ∧
    r.session.started.Pairwise (fun a b =>
      a.task.due < b.task.due ∨ a.task.due = b.task.due ∧ a.task.seq < b.task.seq) ∧
    ∃ acts, starts acts = r.session.started ∧ (tasks acts).map (·.seq) = List.range 6 ∧
      ∀ t, .scheduled t ∈ acts → ∃! f, Fate.Holds acts r.session t f := by
  intro r
  have hforward : areForward nestedScript = true := by decide +kernel
  obtain ⟨⟨last, hlast⟩, hsafe⟩ := scheduler_safe 0 hforward
  obtain ⟨hnumbers, hstarts, hincreasing, hfate, -⟩ := hsafe last
  rw [← hlast] at hnumbers hstarts hincreasing hfate
  refine ⟨by decide +kernel, by decide +kernel, by decide +kernel, hincreasing, _, hstarts, ?_, hfate⟩
  rw [hnumbers, show (Session.run { clock := (0 : Rat) } nestedScript).session.scheduler.nextSeq = 6 by
    decide +kernel]

end PhaseMachine.Script
