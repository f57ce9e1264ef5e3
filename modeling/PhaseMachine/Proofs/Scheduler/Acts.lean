/-
What happens in the life of a scheduler, act by act: a task is scheduled, a number is cancelled, the
epoch is left, a task is started. A task is open from when it is scheduled until the first act that ends
its wait, so it is open still or was closed by exactly one act. The moments of a run are the states
that its steps lead through, the middle of polls included.
-/
import PhaseMachine.Scheduler.Script
import Mathlib.Data.List.Nodup
import Mathlib.Data.List.Range

namespace PhaseMachine.Script

variable {τ : Type}

inductive Act (τ : Type) where
  | scheduled (task : Task τ (Callback τ))
  | cancelled (seq : Nat)
  | left
  | started (start : Start τ)

/-- Whether an act ends the wait of a task. -/
def Act.Ends (t : Task τ (Callback τ)) : Act τ → Prop
  | scheduled _ => False
  | cancelled seq => seq = t.seq
  | left => True
  | started start => start.task.seq = t.seq

def tasks (acts : List (Act τ)) : List (Task τ (Callback τ)) :=
  acts.filterMap fun
    | .scheduled t => some t
    | _ => none

def starts (acts : List (Act τ)) : List (Start τ) :=
  acts.filterMap fun
    | .started s => some s
    | _ => none

theorem mem_tasks {acts : List (Act τ)} {t : Task τ (Callback τ)} : t ∈ tasks acts ↔ .scheduled t ∈ acts := by
  unfold tasks
  rw [List.mem_filterMap]
  constructor
  · rintro ⟨a, ha, h⟩
    cases a with
    | scheduled u => cases h; exact ha
    | _ => cases h
  · intro h
    exact ⟨_, h, rfl⟩

theorem mem_starts {acts : List (Act τ)} {s : Start τ} : s ∈ starts acts ↔ .started s ∈ acts := by
  unfold starts
  rw [List.mem_filterMap]
  constructor
  · rintro ⟨a, ha, h⟩
    cases a with
    | started u => cases h; exact ha
    | _ => cases h
  · intro h
    exact ⟨_, h, rfl⟩

/-! ## Open and closed tasks -/

/-- The task was scheduled, and no act ended its wait since. -/
def Open (acts : List (Act τ)) (t : Task τ (Callback τ)) : Prop :=
  ∃ earlier later, acts = earlier ++ .scheduled t :: later ∧ ∀ a ∈ later, ¬ a.Ends t

/-- The act came while the task was open, and ended its wait. -/
def Closed (acts : List (Act τ)) (a : Act τ) (t : Task τ (Callback τ)) : Prop :=
  ∃ earlier later, acts = earlier ++ a :: later ∧ Open earlier t ∧ a.Ends t

/-- A member of a list that goes on by one is the new one or stands in the list before. -/
theorem concat_eq_append_cons {α : Type} {as earlier later : List α} {a b : α} :
    as ++ [a] = earlier ++ b :: later ↔
      (as = earlier ∧ a = b ∧ later = []) ∨ ∃ l, as = earlier ++ b :: l ∧ later = l ++ [a] := by
  constructor
  · intro h
    rcases List.eq_nil_or_concat later with rfl | ⟨l, c, rfl⟩
    · obtain ⟨h1, h2⟩ := List.append_inj' h rfl
      cases h2
      exact .inl ⟨h1, rfl, rfl⟩
    · rw [List.concat_eq_append, ← List.cons_append, ← List.append_assoc] at h
      obtain ⟨h1, h2⟩ := List.append_inj' h rfl
      cases h2
      exact .inr ⟨l, h1, List.concat_eq_append ..⟩
  · rintro (⟨rfl, rfl, rfl⟩ | ⟨l, rfl, rfl⟩)
    · rfl
    · simp

theorem not_open_nil (t : Task τ (Callback τ)) : ¬ Open [] t := by
  rintro ⟨earlier, later, h, -⟩
  cases earlier <;> cases h

theorem open_concat {acts : List (Act τ)} {a : Act τ} {t : Task τ (Callback τ)} :
    Open (acts ++ [a]) t ↔ a = .scheduled t ∨ Open acts t ∧ ¬ a.Ends t := by
  constructor
  · rintro ⟨earlier, later, h, hl⟩
    rcases concat_eq_append_cons.1 h with ⟨-, rfl, -⟩ | ⟨l, rfl, rfl⟩
    · exact .inl rfl
    · refine .inr ⟨⟨earlier, l, rfl, fun b hb => hl b (List.mem_append_left _ hb)⟩, hl a ?_⟩
      exact List.mem_append_right _ (List.mem_singleton_self a)
  · rintro (rfl | ⟨⟨earlier, later, rfl, hl⟩, ha⟩)
    · exact ⟨acts, [], rfl, fun b hb => absurd hb List.not_mem_nil⟩
    · refine ⟨earlier, later ++ [a], by simp, fun b hb => ?_⟩
      rcases List.mem_append.1 hb with hb | hb
      · exact hl b hb
      · rwa [List.mem_singleton.1 hb]

theorem closed_concat {acts : List (Act τ)} {a b : Act τ} {t : Task τ (Callback τ)} :
    Closed (acts ++ [b]) a t ↔ Closed acts a t ∨ b = a ∧ Open acts t ∧ a.Ends t := by
  constructor
  · rintro ⟨earlier, later, h, ho, he⟩
    rcases concat_eq_append_cons.1 h with ⟨rfl, rfl, -⟩ | ⟨l, rfl, -⟩
    · exact .inr ⟨rfl, ho, he⟩
    · exact .inl ⟨earlier, l, rfl, ho, he⟩
  · rintro (⟨earlier, later, rfl, ho, he⟩ | ⟨rfl, ho, he⟩)
    · exact ⟨earlier, later ++ [b], by simp, ho, he⟩
    · exact ⟨acts, [], rfl, ho, he⟩

theorem Open.scheduled {acts : List (Act τ)} {t : Task τ (Callback τ)} (h : Open acts t) :
    .scheduled t ∈ acts := by
  obtain ⟨earlier, later, rfl, -⟩ := h
  exact List.mem_append_right _ (List.mem_cons_self ..)

theorem Closed.scheduled {acts : List (Act τ)} {a : Act τ} {t : Task τ (Callback τ)} (h : Closed acts a t) :
    .scheduled t ∈ acts := by
  obtain ⟨earlier, later, rfl, ho, -⟩ := h
  exact List.mem_append_left _ ho.scheduled

/-- A task that was scheduled is open, or some act closed it. -/
theorem open_or_closed {acts : List (Act τ)} {t : Task τ (Callback τ)} (h : .scheduled t ∈ acts) :
    Open acts t ∨ ∃ a, Closed acts a t := by
  induction acts using List.reverseRecOn with
  | nil => cases h
  | append_singleton acts a ih =>
    by_cases hs : a = .scheduled t
    · exact .inl (open_concat.2 (.inl hs))
    · have hmem : .scheduled t ∈ acts := by
        rcases List.mem_append.1 h with h | h
        · exact h
        · exact absurd (List.mem_singleton.1 h).symm hs
      rcases ih hmem with ho | ⟨b, hb⟩
      · by_cases he : a.Ends t
        · exact .inr ⟨a, closed_concat.2 (.inr ⟨rfl, ho, he⟩)⟩
        · exact .inl (open_concat.2 (.inr ⟨ho, he⟩))
      · exact .inr ⟨b, closed_concat.2 (.inl hb)⟩

/-! ## Stories -/

/-- Acts that make a story of a scheduler that has given out so many numbers: tasks get the numbers in
order, what is cancelled was scheduled before, and what is started is open and was never cancelled. -/
structure Story (acts : List (Act τ)) (count : Nat) : Prop where
  numbers : (tasks acts).map (·.seq) = List.range count
  cancels : ∀ n, .cancelled n ∈ acts → n < count ∧ ∀ t, Open acts t → t.seq ≠ n
  starts : ∀ earlier s later, acts = earlier ++ .started s :: later →
    Open earlier s.task ∧ .cancelled s.task.seq ∉ earlier

theorem story_nil : Story ([] : List (Act τ)) 0 :=
  ⟨rfl, fun n h => (List.not_mem_nil h).elim, fun earlier s later h => by cases earlier <;> cases h⟩

namespace Story

variable {acts : List (Act τ)} {count : Nat}

theorem eq_of_seq (h : Story acts count) {t u : Task τ (Callback τ)} (ht : .scheduled t ∈ acts)
    (hu : .scheduled u ∈ acts) (he : t.seq = u.seq) : t = u := by
  have hd : ((tasks acts).map (·.seq)).Nodup := h.numbers ▸ List.nodup_range
  exact List.inj_on_of_nodup_map hd (mem_tasks.2 ht) (mem_tasks.2 hu) he

theorem seq_lt (h : Story acts count) {t : Task τ (Callback τ)} (ht : .scheduled t ∈ acts) : t.seq < count := by
  have hmem : t.seq ∈ (tasks acts).map (·.seq) := List.mem_map_of_mem (mem_tasks.2 ht)
  rw [h.numbers] at hmem
  exact List.mem_range.1 hmem

/-- What a story says of starts goes on if a new start is of an open task that was never cancelled. -/
theorem starts_concat (h : Story acts count) {a : Act τ}
    (ha : ∀ s, a = .started s → Open acts s.task ∧ .cancelled s.task.seq ∉ acts) :
    ∀ earlier s later, acts ++ [a] = earlier ++ .started s :: later →
      Open earlier s.task ∧ .cancelled s.task.seq ∉ earlier := by
  intro earlier s later hs
  rcases concat_eq_append_cons.1 hs with ⟨rfl, rfl, -⟩ | ⟨l, hl, -⟩
  · exact ha s rfl
  · exact h.starts earlier s l hl

theorem scheduled (h : Story acts count) {t : Task τ (Callback τ)} (ht : t.seq = count) :
    Story (acts ++ [.scheduled t]) (count + 1) := by
  refine ⟨?_, fun n hn => ?_, h.starts_concat fun s hs => by cases hs⟩
  · have htasks : tasks (acts ++ [.scheduled t]) = tasks acts ++ [t] := List.filterMap_append
    rw [htasks, List.map_append, h.numbers, List.range_succ, ← ht]
    rfl
  · have hmem : .cancelled n ∈ acts := by simpa using hn
    obtain ⟨hlt, hopen⟩ := h.cancels n hmem
    refine ⟨hlt.trans (Nat.lt_succ_self _), fun u hu => ?_⟩
    rcases open_concat.1 hu with he | ⟨hu, -⟩
    · cases he
      omega
    · exact hopen u hu

/-- Acts other than scheduling keep the numbers. -/
theorem tasks_concat {a : Act τ} (ha : ∀ t, a ≠ .scheduled t) : tasks (acts ++ [a]) = tasks acts := by
  have hnone : tasks [a] = [] := by
    cases a with
    | scheduled t => exact absurd rfl (ha t)
    | _ => rfl
  rw [← List.append_nil (tasks acts), ← hnone]
  exact List.filterMap_append

/-- What is cancelled was scheduled, so its number was given out. -/
theorem cancelled (h : Story acts count) {n : Nat} (hn : n < count) : Story (acts ++ [.cancelled n]) count := by
  refine ⟨?_, fun m hm => ?_, h.starts_concat fun s hs => by cases hs⟩
  · rw [tasks_concat fun t ht => by cases ht]
    exact h.numbers
  · refine ⟨?_, fun t ht => ?_⟩
    · rcases List.mem_append.1 hm with hm | hm
      · exact (h.cancels m hm).1
      · cases List.mem_singleton.1 hm
        exact hn
    · rcases open_concat.1 ht with he | ⟨ht, he⟩
      · cases he
      · rcases List.mem_append.1 hm with hm | hm
        · exact (h.cancels m hm).2 t ht
        · cases List.mem_singleton.1 hm
          exact Ne.symm he

theorem left (h : Story acts count) : Story (acts ++ [.left]) count := by
  refine ⟨?_, fun m hm => ?_, h.starts_concat fun s hs => by cases hs⟩
  · rw [tasks_concat fun t ht => by cases ht]
    exact h.numbers
  · have hmem : .cancelled m ∈ acts := by simpa using hm
    refine ⟨(h.cancels m hmem).1, fun t ht => ?_⟩
    rcases open_concat.1 ht with he | ⟨-, he⟩
    · cases he
    · exact absurd trivial he

theorem started (h : Story acts count) {s : Start τ} (hs : Open acts s.task) :
    Story (acts ++ [.started s]) count := by
  refine ⟨?_, fun m hm => ?_, h.starts_concat fun u hu => ?_⟩
  · rw [tasks_concat fun t ht => by cases ht]
    exact h.numbers
  · have hmem : .cancelled m ∈ acts := by simpa using hm
    refine ⟨(h.cancels m hmem).1, fun t ht => ?_⟩
    rcases open_concat.1 ht with he | ⟨ht, -⟩
    · cases he
    · exact (h.cancels m hmem).2 t ht
  · cases hu
    exact ⟨hs, fun hc => (h.cancels _ hc).2 _ hs rfl⟩

/-- No task is scheduled twice. -/
theorem nodup_tasks (h : Story acts count) : (tasks acts).Nodup :=
  .of_map _ (h.numbers ▸ List.nodup_range)

end Story

/-- If no task is scheduled twice, a closed task is not open, and one act closed it. -/
theorem Closed.unique {acts : List (Act τ)} {t : Task τ (Callback τ)} (hd : (tasks acts).Nodup) {a : Act τ}
    (ha : Closed acts a t) : ¬ Open acts t ∧ ∀ b, Closed acts b t → b = a := by
  induction acts using List.reverseRecOn generalizing a with
  | nil =>
    obtain ⟨earlier, later, h, -⟩ := ha
    cases earlier <;> cases h
  | append_singleton acts c ih =>
    have htasks : tasks (acts ++ [c]) = tasks acts ++ tasks [c] := List.filterMap_append
    rw [htasks, List.nodup_append] at hd
    obtain ⟨hd, -, hnew⟩ := hd
    -- the task was scheduled before the last act, so that act does not schedule it
    have hc : .scheduled t ∈ acts → c ≠ .scheduled t := by
      rintro hmem rfl
      exact hnew t (mem_tasks.2 hmem) t (List.mem_singleton_self t) rfl
    rcases closed_concat.1 ha with hold | ⟨rfl, ho, he⟩
    · obtain ⟨hnot, hsame⟩ := ih hd hold
      refine ⟨fun hopen => ?_, fun b hb => ?_⟩
      · rcases open_concat.1 hopen with hs | ⟨hopen, -⟩
        · exact hc hold.scheduled hs
        · exact hnot hopen
      · rcases closed_concat.1 hb with hb | ⟨-, hopen, -⟩
        · exact hsame b hb
        · exact absurd hopen hnot
    · refine ⟨fun hopen => ?_, fun b hb => ?_⟩
      · rcases open_concat.1 hopen with hs | ⟨-, hend⟩
        · exact hc ho.scheduled hs
        · exact hend he
      · rcases closed_concat.1 hb with hb | ⟨rfl, -, -⟩
        · exact absurd ho (ih hd hb).1
        · rfl

/-! ## Moments of a run -/

variable [Quantity τ]

namespace Run

/-- What happens in the next step. -/
def act? (r : Run τ) : Option (Act τ) :=
  match r.stack with
  | .script (.schedule tag delay callback :: _) :: _ =>
    some (.scheduled (r.session.newTask delay ⟨tag, callback⟩))
  | .script (.cancel tag :: _) :: _ => (r.session.tagged.lookup tag).map .cancelled
  | .script (.advanceEpoch :: _) :: _ => some .left
  | .poll reading _ :: _ =>
    match r.session.scheduler.takeDue? reading with
    | some (task, scheduler) => if scheduler.live task then some (.started ⟨task, reading⟩) else none
    | none => none
  | _ => none

/-- A run that is over does nothing. -/
theorem act?_of_next? {r : Run τ} (h : r.next? = none) : r.act? = none := by
  unfold Run.next? at h
  split at h
  · next hs => unfold act?; rw [hs]
  · cases h
  · cases h
  · split at h
    · cases h
    · split at h <;> cases h

/-- The run after a number of steps, or at its end. -/
def moment (r : Run τ) : Nat → Run τ
  | 0 => r
  | n + 1 => (r.moment n).next?.getD (r.moment n)

/-- What happened in these steps. -/
def acts (r : Run τ) : Nat → List (Act τ)
  | 0 => []
  | n + 1 => r.acts n ++ (r.moment n).act?.toList

theorem moment_of_next? {r q : Run τ} (h : r.next? = some q) (n : Nat) : r.moment (n + 1) = q.moment n := by
  induction n with
  | zero =>
    show r.next?.getD r = q
    rw [h]
    rfl
  | succ n ih =>
    show (r.moment (n + 1)).next?.getD (r.moment (n + 1)) = (q.moment n).next?.getD (q.moment n)
    rw [ih]

/-- A moment is followed by one step, or is the end. -/
theorem moment_succ_cases (r : Run τ) (n : Nat) :
    (∃ q, (r.moment n).next? = some q ∧ r.moment (n + 1) = q) ∨
      r.moment (n + 1) = r.moment n ∧ r.acts (n + 1) = r.acts n := by
  cases hq : (r.moment n).next? with
  | some q =>
    refine .inl ⟨q, rfl, ?_⟩
    show (r.moment n).next?.getD (r.moment n) = q
    rw [hq]
    rfl
  | none =>
    refine .inr ⟨?_, ?_⟩
    · show (r.moment n).next?.getD (r.moment n) = r.moment n
      rw [hq]
      rfl
    · show r.acts n ++ (r.moment n).act?.toList = r.acts n
      rw [act?_of_next? hq]
      exact List.append_nil (r.acts n)

/-- The end of a run is a moment of it. -/
theorem finish_eq_moment (r : Run τ) : ∃ n, r.finish = r.moment n ∧ (r.moment n).next? = none := by
  fun_induction finish r with
  | case1 r h => exact ⟨0, rfl, h⟩
  | case2 r q h ih =>
    obtain ⟨n, hn, hend⟩ := ih
    refine ⟨n + 1, ?_, ?_⟩
    · rw [moment_of_next? h]
      exact hn
    · rw [moment_of_next? h]
      exact hend

end Run

/-! ## What a step makes of a session -/

/-- The sessions that a step can lead to, each with the act that the step is. -/
inductive Session.Turn (s : Session τ) : Option (Act τ) → Session τ → Prop where
  | kept (clock : τ) : Turn s none { s with clock }
  | scheduled (delay : τ) (callback : Callback τ) :
      Turn s (some (.scheduled (s.newTask delay callback))) (s.schedule delay callback)
  | cancelled (seq : Nat) : Turn s (some (.cancelled seq)) { s with scheduler := s.scheduler.cancel seq }
  | left : Turn s (some .left) { s with scheduler := s.scheduler.advanceEpoch }
  | started {reading : τ} {task : Task τ (Callback τ)} {rest : Scheduler τ (Callback τ)}
      (taken : s.scheduler.takeDue? reading = some (task, rest)) (live : rest.live task = true) :
      Turn s (some (.started ⟨task, reading⟩)) ({ s with scheduler := rest }.start reading task)
  | passed {reading : τ} {task : Task τ (Callback τ)} {rest : Scheduler τ (Callback τ)}
      (taken : s.scheduler.takeDue? reading = some (task, rest)) (dead : rest.live task = false) :
      Turn s none { s with scheduler := rest }

/-- What a step starts is added to what was started. -/
theorem Session.Turn.started_eq {s s' : Session τ} {act? : Option (Act τ)} (h : s.Turn act? s') :
    s'.started = s.started ++ starts act?.toList := by
  cases h with
  | started => rfl
  | _ => exact (List.append_nil s.started).symm

theorem Run.turn_perform {r : Run τ} {c : Command τ} {cs : List (Command τ)} {below : List (Frame τ)}
    (hs : r.stack = .script (c :: cs) :: below) :
    r.session.Turn r.act? ({ r with stack := .script cs :: below }.perform c).session := by
  unfold act?
  rw [hs]
  cases c with
  | schedule tag delay callback => exact .scheduled delay ⟨tag, callback⟩
  | cancel tag =>
    unfold perform Session.cancel
    dsimp only
    cases r.session.tagged.lookup tag with
    | none => exact .kept r.session.clock
    | some seq => exact .cancelled seq
  | advance ms => exact .kept (r.session.clock + ms)
  | poll => exact .kept r.session.clock
  | advanceEpoch => exact .left
  | outOfRange => exact .kept r.session.clock

theorem Run.turn {r q : Run τ} (h : r.next? = some q) : r.session.Turn r.act? q.session := by
  unfold Run.next? at h
  split at h
  · cases h
  · next below hs =>
    cases h
    unfold act?
    rw [hs]
    exact .kept r.session.clock
  · next c cs below hs =>
    cases h
    exact turn_perform hs
  · next reading count below hs =>
    unfold act?
    rw [hs]
    dsimp only
    split at h
    · next ht =>
      cases h
      rw [ht]
      exact .kept r.session.clock
    · next task rest ht =>
      rw [ht]
      dsimp only
      split at h
      · next hl =>
        cases h
        rw [if_pos hl]
        exact .started ht hl
      · next hl =>
        cases h
        rw [if_neg hl]
        exact .passed ht (Bool.eq_false_iff.2 hl)

end PhaseMachine.Script
