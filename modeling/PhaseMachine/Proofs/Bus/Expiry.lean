/-
When the transfers of a bus log end. A timer names its transfer by the number alone. Draining the log
lets numbers go on, so the timers of drained transfers end nothing. Clearing it starts numbers over and
leaves the timers waiting, so a timer from before ends the transfer that has been given its number since.
-/
import PhaseMachine.Bus.Timed
import PhaseMachine.Proofs.Scheduler.Drain

namespace PhaseMachine.TimedBus

/-! ## Operations -/

/-- What can be done to a bus log and its clock within one epoch. -/
inductive Op (τ : Type) where
  | send (signal : Signal) (lifetime : Option τ)
  | setLifetime (lifetime : τ)
  | drain
  | clear
  | advance (ms : τ)
  | poll

/-- Whether it takes the transfers out of the log. -/
def Op.empties {τ : Type} : Op τ → Bool
  | .drain | .clear => true
  | _ => false

/-- A bus log as it is made. -/
def make {τ : Type} (lifetime clock : τ) : TimedBus τ :=
  { log := { lifetime }, clock }

variable {τ : Type} [Quantity τ]

def perform (b : TimedBus τ) : Op τ → TimedBus τ
  | .send signal lifetime => b.send signal lifetime
  | .setLifetime lifetime => b.setLifetime lifetime
  | .drain => b.drain
  | .clear => b.clear
  | .advance ms => b.advance ms
  | .poll => b.poll

def after (b : TimedBus τ) (ops : List (Op τ)) : TimedBus τ :=
  ops.foldl perform b

@[simp]
theorem after_cons (b : TimedBus τ) (op : Op τ) (ops : List (Op τ)) :
    b.after (op :: ops) = (b.perform op).after ops := rfl

theorem after_append (b : TimedBus τ) (ops later : List (Op τ)) :
    b.after (ops ++ later) = (b.after ops).after later :=
  List.foldl_append

omit [Quantity τ] in
/-- The timers of some tasks, one after the other, make inactive what has one of their numbers. -/
theorem deactivate_all (log : BusLog τ) (tasks : List (Task τ Nat)) :
    tasks.foldl (fun log t => log.deactivate t.payload) log =
      { log with transfers := log.transfers.map fun x =>
          { x with active := x.active && !tasks.any (·.payload = x.number) } } := by
  induction tasks generalizing log with
  | nil => simp
  | cons t tasks ih =>
    rw [List.foldl_cons, ih]
    simp only [BusLog.deactivate, List.map_map]
    congr 1
    refine List.map_congr_left fun x _ => ?_
    by_cases hn : x.number = t.payload
    · simp [Transfer.expire, hn]
    · simp [Transfer.expire, hn, Ne.symm hn]

theorem log_poll (b : TimedBus τ) :
    b.poll.log = { b.log with transfers := b.log.transfers.map fun x =>
      { x with active := x.active && !b.due.any (·.payload = x.number) } } :=
  deactivate_all b.log b.due

/-! ## Timers that are waiting -/

/-- When a transfer that is sent now is to end: after a lifetime of its own, or that of the log. A
negative lifetime counts as none. -/
def deadline (b : TimedBus Rat) (lifetime : Option Rat) : Rat :=
  b.clock + max 0 (lifetime.getD b.log.lifetime)

/-- The timers are in order, and none is cancelled. -/
structure Sound (b : TimedBus Rat) : Prop where
  wf : b.timers.WF
  standing : ∀ t ∈ b.timers.queue, t.cancelled = false

/-- A timer for a number is waiting, due at a time. -/
def Awaits (b : TimedBus Rat) (number : Nat) (due : Rat) : Prop :=
  ∃ t ∈ b.timers.queue, t.payload = number ∧ t.due = due

variable {b : TimedBus Rat}

theorem sound_make (lifetime clock : Rat) : (make lifetime clock).Sound :=
  ⟨Scheduler.wf_empty, fun t ht => absurd ht (Array.not_mem_empty t)⟩

theorem not_awaits_make (lifetime clock : Rat) (number : Nat) (due : Rat) :
    ¬ (make lifetime clock).Awaits number due := by
  rintro ⟨t, ht, -⟩
  exact Array.not_mem_empty t ht

theorem due_newTask (b : TimedBus Rat) (lifetime : Option Rat) :
    (b.timers.newTask b.clock (lifetime.getD b.log.lifetime) b.log.nextNumber).due = b.deadline lifetime := by
  show b.clock + Quantity.atLeast 0 (lifetime.getD b.log.lifetime) = _
  rw [Quantity.atLeast_eq_max]
  rfl

theorem awaits_send (signal : Signal) (lifetime : Option Rat) (number : Nat) (due : Rat) :
    (b.send signal lifetime).Awaits number due ↔
      (b.log.nextNumber = number ∧ b.deadline lifetime = due) ∨ b.Awaits number due := by
  unfold Awaits send
  simp only [Scheduler.mem_schedule, or_and_right, exists_or, exists_eq_left, due_newTask]
  rfl

namespace Sound

/-- A poll lets those timers go off that are due. -/
theorem any_due (h : b.Sound) (number : Nat) :
    b.due.any (·.payload = number) = true ↔ ∃ due, b.Awaits number due ∧ due ≤ b.clock := by
  have hdue : ∀ t, t ∈ b.due ↔ t ∈ b.timers.queue ∧ t.due ≤ b.clock := h.wf.mem_drain h.standing
  rw [List.any_eq_true]
  constructor
  · rintro ⟨t, ht, hn⟩
    obtain ⟨hin, hd⟩ := (hdue t).1 ht
    exact ⟨t.due, ⟨t, hin, of_decide_eq_true hn, rfl⟩, hd⟩
  · rintro ⟨_, ⟨t, hin, hn, rfl⟩, hd⟩
    exact ⟨t, (hdue t).2 ⟨hin, hd⟩, decide_eq_true hn⟩

theorem awaits_poll (h : b.Sound) (number : Nat) (due : Rat) :
    b.poll.Awaits number due ↔ b.Awaits number due ∧ ¬ due ≤ b.clock := by
  have hleft : ∀ t, t ∈ (b.timers.drain b.clock).2.queue ↔ t ∈ b.timers.queue ∧ b.clock < t.due :=
    h.wf.drain.2.1
  constructor
  · rintro ⟨t, ht, hn, rfl⟩
    obtain ⟨hin, hlater⟩ := (hleft t).1 ht
    exact ⟨⟨t, hin, hn, rfl⟩, not_le.2 hlater⟩
  · rintro ⟨⟨t, hin, hn, rfl⟩, hlater⟩
    exact ⟨t, (hleft t).2 ⟨hin, not_le.1 hlater⟩, hn, rfl⟩

theorem perform (h : b.Sound) (op : Op Rat) : (b.perform op).Sound := by
  cases op with
  | send signal lifetime =>
    exact ⟨h.wf.schedule b.clock _ _, Scheduler.standing_schedule h.standing b.clock _ _⟩
  | poll => exact ⟨h.wf.drain.2.2, fun t ht => h.standing t ((h.wf.drain.2.1 t).1 ht).1⟩
  | _ => exact ⟨h.wf, h.standing⟩

theorem after (h : b.Sound) (ops : List (Op Rat)) : (b.after ops).Sound := by
  induction ops generalizing b with
  | nil => exact h
  | cons op ops ih => exact ih (h.perform op)

/-- A timer stays until a poll finds it due, and only sending sets a new one. -/
theorem awaits_perform (h : b.Sound) (op : Op Rat) (number : Nat) (due : Rat) :
    (b.perform op).Awaits number due ↔
      (∃ signal lifetime, op = .send signal lifetime ∧ b.log.nextNumber = number ∧
        b.deadline lifetime = due) ∨
      b.Awaits number due ∧ ¬ (op = .poll ∧ due ≤ b.clock) := by
  cases op with
  | send signal lifetime => simp [TimedBus.perform, awaits_send]
  | poll => simp [TimedBus.perform, h.awaits_poll]
  | _ => simp [TimedBus.perform, Awaits, TimedBus.setLifetime, TimedBus.drain, TimedBus.clear, TimedBus.advance]

/-- Unless a timer is waiting, none is pending. -/
theorem awaits_pending (h : b.Sound) {number : Nat} {due : Rat} (hw : b.Awaits number due) :
    b.timers.pending ≠ 0 := by
  obtain ⟨t, ht, -⟩ := hw
  unfold Scheduler.pending
  intro hnone
  have hin : t ∈ b.timers.queue.filter b.timers.live :=
    Array.mem_filter.2 ⟨ht, (h.wf.live_iff ht).2 (h.standing t ht)⟩
  rw [Array.size_eq_zero_iff.1 hnone] at hin
  exact Array.not_mem_empty t hin

end Sound

/-! ## Timers along a run -/

/-- Whether one of the operations is a poll at a reading of the clock no earlier than a time. -/
def Polled (b : TimedBus Rat) (ops : List (Op Rat)) (time : Rat) : Prop :=
  ∃ before later, ops = before ++ .poll :: later ∧ time ≤ (b.after before).clock

/-- Whether one of the operations sends a transfer of a number that is to end at a time, and no poll came
to that time since. -/
def Unended (b : TimedBus Rat) (ops : List (Op Rat)) (number : Nat) (time : Rat) : Prop :=
  ∃ before signal lifetime later, ops = before ++ .send signal lifetime :: later ∧
    (b.after before).log.nextNumber = number ∧ (b.after before).deadline lifetime = time ∧
    ¬ ((b.after before).send signal lifetime).Polled later time

theorem not_polled_nil (b : TimedBus Rat) (time : Rat) : ¬ b.Polled [] time := by
  rintro ⟨before, later, hops, -⟩
  cases before <;> cases hops

theorem polled_cons (b : TimedBus Rat) (op : Op Rat) (ops : List (Op Rat)) (time : Rat) :
    b.Polled (op :: ops) time ↔ (op = .poll ∧ time ≤ b.clock) ∨ (b.perform op).Polled ops time := by
  constructor
  · rintro ⟨before, later, hops, hle⟩
    cases before with
    | nil =>
      cases hops
      exact .inl ⟨rfl, hle⟩
    | cons first before =>
      cases hops
      exact .inr ⟨before, later, rfl, hle⟩
  · rintro (⟨rfl, hle⟩ | ⟨before, later, rfl, hle⟩)
    · exact ⟨[], ops, rfl, hle⟩
    · exact ⟨op :: before, later, rfl, hle⟩

theorem Polled.append {ops : List (Op Rat)} {time : Rat} (h : b.Polled ops time) (more : List (Op Rat)) :
    b.Polled (ops ++ more) time := by
  obtain ⟨before, later, rfl, hle⟩ := h
  exact ⟨before, later ++ more, by simp, hle⟩

theorem unended_cons (b : TimedBus Rat) (op : Op Rat) (ops : List (Op Rat)) (number : Nat) (time : Rat) :
    b.Unended (op :: ops) number time ↔
      ((∃ signal lifetime, op = .send signal lifetime ∧ b.log.nextNumber = number ∧
        b.deadline lifetime = time) ∧ ¬ (b.perform op).Polled ops time) ∨
      (b.perform op).Unended ops number time := by
  constructor
  · rintro ⟨before, signal, lifetime, later, hops, hn, hd, hnot⟩
    cases before with
    | nil =>
      cases hops
      exact .inl ⟨⟨signal, lifetime, rfl, hn, hd⟩, hnot⟩
    | cons first before =>
      cases hops
      exact .inr ⟨before, signal, lifetime, later, rfl, hn, hd, hnot⟩
  · rintro (⟨⟨signal, lifetime, rfl, hn, hd⟩, hnot⟩ | ⟨before, signal, lifetime, later, rfl, hn, hd, hnot⟩)
    · exact ⟨[], signal, lifetime, ops, rfl, hn, hd, hnot⟩
    · exact ⟨op :: before, signal, lifetime, later, rfl, hn, hd, hnot⟩

/-- The timers that are waiting are those that were, and those of transfers sent since, of which no poll
came to the end. -/
theorem Sound.awaits_after (h : b.Sound) (ops : List (Op Rat)) (number : Nat) (due : Rat) :
    (b.after ops).Awaits number due ↔
      (b.Awaits number due ∧ ¬ b.Polled ops due) ∨ b.Unended ops number due := by
  induction ops generalizing b with
  | nil =>
    have hnone : ¬ b.Unended [] number due := by
      rintro ⟨before, signal, lifetime, later, hops, -⟩
      cases before <;> cases hops
    simp [TimedBus.after, not_polled_nil, hnone]
  | cons op ops ih =>
    rw [after_cons, ih (h.perform op), h.awaits_perform, unended_cons, polled_cons, not_or, or_and_right,
      or_assoc, or_left_comm, and_assoc]

/-- In a log that was made with no timer waiting, only the transfers sent count. -/
theorem awaits_iff_unended (lifetime clock : Rat) (ops : List (Op Rat)) (number : Nat) (due : Rat) :
    ((make lifetime clock).after ops).Awaits number due ↔ (make lifetime clock).Unended ops number due := by
  rw [(sound_make lifetime clock).awaits_after]
  simp [not_awaits_make]

/-! ## Numbers -/

theorem nextNumber_perform {op : Op Rat} (ho : op ≠ .clear) :
    b.log.nextNumber ≤ (b.perform op).log.nextNumber := by
  cases op with
  | send signal lifetime => exact Nat.le_succ _
  | clear => exact absurd rfl ho
  | poll => rw [perform, log_poll]
  | _ => exact le_refl _

/-- Numbers go on until the log is cleared. -/
theorem nextNumber_after {ops : List (Op Rat)} (hops : .clear ∉ ops) :
    b.log.nextNumber ≤ (b.after ops).log.nextNumber := by
  induction ops generalizing b with
  | nil => exact le_refl _
  | cons op ops ih =>
    obtain ⟨hne, hrest⟩ := not_or.1 (mt List.mem_cons.2 hops)
    exact (nextNumber_perform (Ne.symm hne)).trans (ih hrest)

/-- No timer is left for the next number if each time the log was cleared none was pending. -/
theorem not_unended_nextNumber (hb : b.Sound) {ops : List (Op Rat)}
    (hclear : ∀ before later, ops = before ++ .clear :: later → (b.after before).timers.pending = 0)
    (time : Rat) : ¬ b.Unended ops (b.after ops).log.nextNumber time := by
  rintro ⟨before, signal, lifetime, later, rfl, hn, hd, hnot⟩
  rw [after_append, after_cons] at hn
  -- numbers have started over since the transfer was sent, and its timer was waiting then
  have hcleared : .clear ∈ later := by
    by_contra hkeeps
    have hle := nextNumber_after (b := (b.after before).perform (.send signal lifetime)) hkeeps
    have hlt : (b.after before).log.nextNumber < ((b.after before).perform (.send signal lifetime)).log.nextNumber :=
      Nat.lt_succ_self _
    omega
  obtain ⟨first, rest, rfl⟩ := List.append_of_mem hcleared
  have hsent := (hb.after before).perform (.send signal lifetime)
  have hwaits : (((b.after before).perform (.send signal lifetime)).after first).Awaits
      (b.after before).log.nextNumber time :=
    (hsent.awaits_after ..).2 (.inl ⟨(awaits_send ..).2 (.inl ⟨rfl, hd⟩), fun hp => hnot (hp.append _)⟩)
  refine (hsent.after first).awaits_pending hwaits ?_
  have hidle := hclear (before ++ .send signal lifetime :: first) rest (by simp)
  rwa [after_append, after_cons] at hidle

/-! ## One transfer -/

/-- One operation that leaves the log its transfers ends a transfer only if it is a poll that finds a timer
for its number due. -/
theorem lives_perform (hb : b.Sound) {k : Nat} {x : Transfer Rat} (hx : b.log.transfers[k]? = some x)
    {op : Op Rat} (ho : op.empties = false) :
    ∃ active, (b.perform op).log.transfers[k]? = some { x with active } ∧
      (active = true ↔
        x.active = true ∧ ∀ due, b.Awaits x.number due → ¬ (op = .poll ∧ due ≤ b.clock)) := by
  cases op with
  | send signal lifetime =>
    refine ⟨x.active, ?_, by simp⟩
    show (b.log.transfers ++ [_])[k]? = some x
    rw [List.getElem?_append_left (List.getElem?_eq_some_iff.1 hx).1]
    exact hx
  | drain => cases ho
  | clear => cases ho
  | setLifetime lifetime => exact ⟨x.active, hx, by simp⟩
  | advance ms => exact ⟨x.active, hx, by simp⟩
  | poll =>
    refine ⟨x.active && !b.due.any (·.payload = x.number), ?_, ?_⟩
    · rw [perform, log_poll, List.getElem?_map, hx]
      rfl
    · rw [Bool.and_eq_true, Bool.not_eq_true', Bool.eq_false_iff, Ne, hb.any_due]
      simp

/-- Through any operations that leave the log its transfers, a transfer is ended by the timers of its
number that are waiting now, and by no others. -/
theorem lives_after (hb : b.Sound) {k : Nat} {x : Transfer Rat} (hx : b.log.transfers[k]? = some x)
    (hold : x.number < b.log.nextNumber) {ops : List (Op Rat)} (ho : ∀ op ∈ ops, op.empties = false) :
    ∃ active, (b.after ops).log.transfers[k]? = some { x with active } ∧
      (active = true ↔ x.active = true ∧ ∀ due, b.Awaits x.number due → ¬ b.Polled ops due) := by
  induction ops generalizing b x with
  | nil => exact ⟨x.active, hx, by simp [not_polled_nil]⟩
  | cons op ops ih =>
    have hop := ho op (List.mem_cons_self ..)
    obtain ⟨active, hnow, hiff⟩ := lives_perform hb hx hop
    have hnext : b.log.nextNumber ≤ (b.perform op).log.nextNumber :=
      nextNumber_perform fun hc => by rw [hc] at hop; cases hop
    obtain ⟨active', hlater, hiff'⟩ := ih (hb.perform op) hnow (hold.trans_le hnext) fun op' hop' =>
      ho op' (List.mem_cons_of_mem op hop')
    refine ⟨active', hlater, ?_⟩
    -- no timer is set for the number any more
    have hwaits : ∀ due, (b.perform op).Awaits x.number due ↔
        b.Awaits x.number due ∧ ¬ (op = .poll ∧ due ≤ b.clock) := fun due => by
      rw [hb.awaits_perform]
      simp [hold.ne']
    rw [hiff']
    simp only [hwaits, hiff, polled_cons, not_or, and_assoc]
    refine and_congr_right fun _ => ⟨fun ⟨hfirst, hrest⟩ due hw => ?_,
      fun h => ⟨fun due hw => ?_, fun due hw => ?_⟩⟩
    · exact ⟨hfirst due hw, hrest due ⟨hw, hfirst due hw⟩⟩
    · exact (h due hw).1
    · exact (h due hw.1).2

/-- The operations after which the transfer at a place of the log was sent, and those since, which have left
the log its transfers. -/
structure SentBetween (made : TimedBus Rat) (k : Nat) (before later : List (Op Rat)) : Prop where
  place : (made.after before).log.transfers.length = k
  keeps : ∀ op ∈ later, op.empties = false

theorem exists_sent (lifetime clock : Rat) {ops : List (Op Rat)} {k : Nat}
    (hk : k < ((make lifetime clock).after ops).log.transfers.length) :
    ∃ before signal own later, ops = before ++ .send signal own :: later ∧
      SentBetween (make lifetime clock) k before later := by
  induction ops using List.reverseRecOn with
  | nil => cases hk
  | append_singleton ops op ih =>
    rw [after_append] at hk
    by_cases hold : k < ((make lifetime clock).after ops).log.transfers.length
    · obtain ⟨before, signal, own, later, rfl, hsent⟩ := ih hold
      refine ⟨before, signal, own, later ++ [op], by simp, hsent.place, fun op' hop' => ?_⟩
      rcases List.mem_append.1 hop' with hop' | hop'
      · exact hsent.keeps op' hop'
      · rw [List.mem_singleton.1 hop']
        cases op with
        | drain => cases hk
        | clear => cases hk
        | _ => rfl
    · cases op with
      | send signal own =>
        refine ⟨ops, signal, own, [], rfl, ?_, fun op hop => absurd hop List.not_mem_nil⟩
        have hlen : k < (((make lifetime clock).after ops).log.transfers ++ [_]).length := hk
        rw [List.length_append, List.length_singleton] at hlen
        omega
      | poll =>
        refine absurd ?_ hold
        have hlen : k < ((make lifetime clock).after ops).poll.log.transfers.length := hk
        rwa [log_poll, List.length_map] at hlen
      | drain => cases hk
      | clear => cases hk
      | _ => exact absurd hk hold

/-- In a log that was made anew, whatever is sent, drained, cleared and polled, every transfer was sent at
some point, and is stamped with the reading of the clock there. It is active as long as no poll since has
come to its own end, nor to the end of a transfer of the same number that was sent before, and whose end no
poll had come to when this one was sent. If the log was only ever cleared while no timer was pending, there
is no such transfer. -/
theorem active_iff_unended (lifetime clock : Rat) {ops : List (Op Rat)} {k : Nat} {x : Transfer Rat}
    (hx : ((make lifetime clock).after ops).log.transfers[k]? = some x) :
    (∃ before signal own later, ops = before ++ .send signal own :: later ∧
      SentBetween (make lifetime clock) k before later) ∧
    ∀ before signal own later, ops = before ++ .send signal own :: later →
      SentBetween (make lifetime clock) k before later →
      let sender := (make lifetime clock).after before
      let sent := sender.send signal own
      x = { sender.log.newTransfer sender.clock signal with active := x.active } ∧
      (x.active = true ↔ ¬ sent.Polled later (sender.deadline own) ∧
        ∀ old, (make lifetime clock).Unended before x.number old → ¬ sent.Polled later old) ∧
      ((∀ first rest, before = first ++ .clear :: rest →
          ((make lifetime clock).after first).timers.pending = 0) →
        ∀ old, ¬ (make lifetime clock).Unended before x.number old) := by
  refine ⟨exists_sent lifetime clock (List.getElem?_eq_some_iff.1 hx).1, ?_⟩
  rintro before signal own later rfl hsent sender sent
  have hsender : sender.Sound := (sound_make lifetime clock).after before
  have hnew : sent.log.transfers[k]? = some (sender.log.newTransfer sender.clock signal) := by
    show (sender.log.transfers ++ [_])[k]? = _
    rw [← hsent.place, List.getElem?_concat_length]
  obtain ⟨active, hnow, hiff⟩ :=
    lives_after (hsender.perform (.send signal own)) hnew (Nat.lt_succ_self _) hsent.keeps
  rw [after_append, after_cons] at hx
  obtain rfl := Option.some.inj (hnow.symm.trans hx)
  refine ⟨rfl, hiff.trans ?_, not_unended_nextNumber (sound_make lifetime clock)⟩
  have hwaits : ∀ due, sent.Awaits sender.log.nextNumber due ↔
      sender.deadline own = due ∨ (make lifetime clock).Unended before sender.log.nextNumber due := fun due => by
    rw [awaits_send, awaits_iff_unended]
    simp only [true_and]
  show (true = true ∧ ∀ due, sent.Awaits sender.log.nextNumber due → ¬ sent.Polled later due) ↔ _
  simp only [hwaits, or_imp, forall_and, forall_eq', true_and]
  rfl

/-! ## Draining and clearing -/

def sample : Signal :=
  ⟨.data, "R1", "ALU", 5⟩

/-- A transfer is sent and taken out of the log, and a little before its end another one is to be sent. -/
def emptied (empty : Op Rat) : List (Op Rat) :=
  [.send sample none, empty, .advance 400]

/-- The timer of a transfer that was drained comes due and ends none. -/
theorem active_iff_unended_drained :
    let ops := emptied .drain ++ [.send sample none, .advance 100, .poll]
    ((make 500 0).after ops).log.transfers.map (·.number) = [2] ∧
    ∀ x, ((make 500 0).after ops).log.transfers[0]? = some x → x.timestamp = 400 ∧ x.active = true := by
  refine ⟨by decide +kernel, fun x hx => ?_⟩
  obtain ⟨hsent, hactive, hidle⟩ := (active_iff_unended 500 0 hx).2 (emptied .drain) sample none
    [.advance 100, .poll] rfl ⟨by decide +kernel, by decide⟩
  have hend : ((make 500 0).after (emptied .drain)).deadline none = 900 := by decide +kernel
  refine ⟨?_, hactive.2 ⟨?_, fun old hold => absurd hold (hidle ?_ old)⟩⟩
  · rw [hsent]
    show ((make 500 0).after (emptied .drain)).clock = 400
    decide +kernel
  · rw [hend, polled_cons, polled_cons]
    simp only [not_polled_nil, reduceCtorEq, false_and, true_and, false_or, or_false, not_le]
    decide +kernel
  · rintro first rest hops
    have hin : .clear ∈ emptied .drain := hops ▸ List.mem_append_right first (List.mem_cons_self ..)
    simp [emptied] at hin

/-- The timer of a transfer that was cleared ends the one that has its number now, long before a poll comes
to the end of that one. -/
theorem cleared_timer_ends_later :
    let sent := ((make 500 0).after (emptied .clear)).send sample none
    sent.log.transfers.map (fun x => (x.number, x.timestamp, x.active)) = [(1, 400, true)] ∧
    ((make 500 0).after (emptied .clear)).deadline none = 900 ∧
    ¬ sent.Polled [.advance 100, .poll] 900 ∧
    (sent.after [.advance 100, .poll]).log.transfers.map (fun x => (x.number, x.timestamp, x.active)) =
      [(1, 400, false)] := by
  refine ⟨by decide +kernel, by decide +kernel, ?_, by decide +kernel⟩
  rw [polled_cons, polled_cons]
  simp only [not_polled_nil, reduceCtorEq, false_and, true_and, false_or, or_false, not_le]
  decide +kernel

end PhaseMachine.TimedBus
