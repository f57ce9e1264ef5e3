/-
How long transfers are active. A timer names the number of its transfer, and numbers start over with
every load and every reset, when the timers of before are dropped. So there is at all times one timer for
each active transfer and none for any other, and it is due at the end of the lifetime that the bus log
had when the transfer was recorded; whatever happens later does not move it.
-/
import PhaseMachine.Proofs.Machine.Pace
import PhaseMachine.Proofs.Machine.Reset
import PhaseMachine.Proofs.Scheduler.Drain

namespace PhaseMachine

/-! ## The bus log and its timers -/

/-- Transfers are numbered by their places, and a transfer is active exactly as long as a timer for its
end is waiting. -/
structure BusLog.Tracked (log : BusLog Rat) (timers : Scheduler Rat Timer) : Prop where
  wf : timers.WF
  standing : ∀ t ∈ timers.queue, t.cancelled = false
  next : log.nextNumber = log.transfers.length + 1
  numbered : ∀ k x, log.transfers[k]? = some x → x.number = k + 1
  known : ∀ t ∈ timers.queue, ∀ n, t.payload = .expire n → n < log.nextNumber
  single : ∀ t ∈ timers.queue, ∀ u ∈ timers.queue, ∀ n,
    t.payload = .expire n → u.payload = .expire n → t = u
  pending : ∀ x ∈ log.transfers, x.active = true ↔ ∃ t ∈ timers.queue, t.payload = .expire x.number

namespace BusLog

variable {log : BusLog Rat} {timers : Scheduler Rat Timer}

theorem tracked_nil (lifetime : Rat) (hwf : timers.WF) (hnone : timers.queue = #[]) :
    BusLog.Tracked { lifetime } timers := by
  have hempty : ∀ t, t ∉ timers.queue := fun t ht => Array.not_mem_empty t (hnone ▸ ht)
  refine ⟨hwf, fun t ht => absurd ht (hempty t), rfl, fun k x hx => ?_, fun t ht => absurd ht (hempty t),
    fun t ht => absurd ht (hempty t), fun x hx => absurd hx List.not_mem_nil⟩
  cases hx

/-- The timer for the marks of the cache ends no transfer. -/
theorem mem_of_schedule_marks {now delay : Rat} {t : Task Rat Timer} {n : Nat}
    (ht : t ∈ (timers.schedule now delay .clearMarks).queue) (hn : t.payload = .expire n) : t ∈ timers.queue := by
  rcases (Scheduler.mem_schedule ..).1 ht with rfl | ht
  · cases hn
  · exact ht

namespace Tracked

theorem number_lt (h : log.Tracked timers) {x : Transfer Rat} (hx : x ∈ log.transfers) :
    x.number < log.nextNumber := by
  obtain ⟨k, hk⟩ := List.mem_iff_getElem?.1 hx
  have hin := (List.getElem?_eq_some_iff.1 hk).1
  rw [h.next, h.numbered k x hk]
  omega

/-- The timer for the next transfer is none for one that is in the log. -/
theorem mem_of_schedule (h : log.Tracked timers) {x : Transfer Rat} (hx : x ∈ log.transfers) {now delay : Rat}
    {t : Task Rat Timer} (ht : t ∈ (timers.schedule now delay (.expire log.nextNumber)).queue)
    (hn : t.payload = .expire x.number) : t ∈ timers.queue := by
  rcases (Scheduler.mem_schedule ..).1 ht with rfl | ht
  · have hlt := h.number_lt hx
    rw [← Timer.expire.inj hn] at hlt
    exact absurd hlt (Nat.lt_irrefl _)
  · exact ht

/-- A timer for something else does not concern the bus log. -/
theorem defer (h : log.Tracked timers) (now delay : Rat) : log.Tracked (timers.schedule now delay .clearMarks) where
  wf := h.wf.schedule now delay .clearMarks
  standing := Scheduler.standing_schedule h.standing now delay .clearMarks
  next := h.next
  numbered := h.numbered
  known t ht n hn := h.known t (mem_of_schedule_marks ht hn) n hn
  single t ht u hu n hn hn' := h.single t (mem_of_schedule_marks ht hn) u (mem_of_schedule_marks hu hn') n hn hn'
  pending x hx := by
    rw [h.pending x hx]
    simp [Scheduler.mem_schedule, Scheduler.newTask]

/-- A new transfer is active, and its timer is the only one for its number. -/
theorem record (h : log.Tracked timers) (now delay : Rat) (signal : Signal) :
    (log.record now signal).Tracked (timers.schedule now delay (.expire log.nextNumber)) where
  wf := h.wf.schedule now delay _
  standing := Scheduler.standing_schedule h.standing now delay _
  next := by
    show log.nextNumber + 1 = (log.transfers ++ [_]).length + 1
    rw [h.next, List.length_append, List.length_singleton]
  numbered := Machine.records_concat h.numbered h.next
  known t ht n hn := by
    rcases (Scheduler.mem_schedule ..).1 ht with rfl | ht
    · obtain rfl := Timer.expire.inj hn
      exact Nat.lt_succ_self _
    · exact (h.known t ht n hn).trans (Nat.lt_succ_self _)
  single t ht u hu n hn hn' := by
    rcases (Scheduler.mem_schedule ..).1 ht with rfl | ht
    · obtain rfl := Timer.expire.inj hn
      rcases (Scheduler.mem_schedule ..).1 hu with rfl | hu
      · rfl
      · exact absurd (h.known u hu _ hn') (Nat.lt_irrefl _)
    · rcases (Scheduler.mem_schedule ..).1 hu with rfl | hu
      · obtain rfl := Timer.expire.inj hn'
        exact absurd (h.known t ht _ hn) (Nat.lt_irrefl _)
      · exact h.single t ht u hu n hn hn'
  pending x hx := by
    rcases List.mem_append.1 hx with hx | hx
    · rw [h.pending x hx]
      simp [Scheduler.mem_schedule, Scheduler.newTask, (h.number_lt hx).ne']
    · rw [List.mem_singleton.1 hx]
      simp [Scheduler.mem_schedule, Scheduler.newTask, newTransfer]

end Tracked

end BusLog

namespace Machine

/-! ## Timers that go off -/

/-- Whether one of the timers ends the transfer of a number. -/
def ending (timers : List (Task Rat Timer)) (number : Nat) : Bool :=
  timers.any fun t => t.payload = .expire number

/-- The timers that go off make their transfers inactive and change nothing else in the bus log. -/
theorem bus_fires (m : Machine Rat) (timers : List (Task Rat Timer)) :
    (timers.foldl (fun m t => m.fire t.payload) m).bus =
      { m.bus with transfers := m.bus.transfers.map fun x =>
          { x with active := x.active && !ending timers x.number } } := by
  induction timers generalizing m with
  | nil => simp [ending]
  | cons t timers ih =>
    rw [List.foldl_cons, ih]
    cases hp : t.payload with
    | clearMarks => simp [fire, ending, hp]
    | expire number =>
      simp only [fire, BusLog.deactivate, List.map_map]
      congr 1
      refine List.map_congr_left fun x _ => ?_
      by_cases hn : x.number = number
      · simp [Transfer.expire, ending, hp, hn]
      · simp [Transfer.expire, ending, hp, hn, Ne.symm hn]

/-- A timer of a tracked log is among those that go off if it is due. -/
theorem ending_due {m : Machine Rat} (h : m.bus.Tracked m.timers) (number : Nat) :
    ending m.due number = true ↔ ∃ t ∈ m.timers.queue, t.due ≤ m.clock ∧ t.payload = .expire number := by
  have hdue : ∀ t, t ∈ m.due ↔ t ∈ m.timers.queue ∧ t.due ≤ m.clock := h.wf.mem_drain h.standing
  simp [ending, hdue, and_assoc]

theorem bus_poll (m : Machine Rat) :
    m.poll.bus = { m.bus with transfers := m.bus.transfers.map fun x =>
      { x with active := x.active && !ending m.due x.number } } :=
  bus_fires { m with timers := (m.timers.drain m.clock).2 } m.due

theorem timers_poll {τ : Type} [Quantity τ] (m : Machine τ) : m.poll.timers = (m.timers.drain m.clock).2 := by
  obtain ⟨bus, cache, h, -⟩ := fires_eq { m with timers := (m.timers.drain m.clock).2 } m.due
  unfold poll
  rw [h]

/-- A timer that is left is due later, so its transfer was not ended. -/
theorem tracked_poll {m : Machine Rat} (h : m.bus.Tracked m.timers) : m.poll.bus.Tracked m.poll.timers := by
  rw [bus_poll, timers_poll]
  have hleft : ∀ t, t ∈ (m.timers.drain m.clock).2.queue ↔ t ∈ m.timers.queue ∧ m.clock < t.due :=
    h.wf.drain.2.1
  refine ⟨h.wf.drain.2.2, fun t ht => h.standing t ((hleft t).1 ht).1, ?_, fun k x hx => ?_,
    fun t ht => h.known t ((hleft t).1 ht).1,
    fun t ht u hu => h.single t ((hleft t).1 ht).1 u ((hleft u).1 hu).1, fun x hx => ?_⟩
  · rw [h.next, List.length_map]
  · rw [List.getElem?_map] at hx
    obtain ⟨y, hy, rfl⟩ := Option.map_eq_some_iff.1 hx
    exact h.numbered k y hy
  · obtain ⟨y, hy, rfl⟩ := List.mem_map.1 hx
    dsimp only
    rw [Bool.and_eq_true, Bool.not_eq_true', Bool.eq_false_iff, Ne, ending_due h, h.pending y hy]
    constructor
    · rintro ⟨⟨t, ht, hn⟩, hnot⟩
      refine ⟨t, (hleft t).2 ⟨ht, not_le.1 fun hdue => hnot ⟨t, ht, hdue, hn⟩⟩, hn⟩
    · rintro ⟨t, ht, hn⟩
      obtain ⟨ht, hlater⟩ := (hleft t).1 ht
      refine ⟨⟨t, ht, hn⟩, ?_⟩
      rintro ⟨u, hu, hdue, hn'⟩
      obtain rfl := h.single t ht u hu _ hn hn'
      exact absurd hdue (not_le.2 hlater)

/-! ## Steps -/

section

variable {τ : Type} [Quantity τ] {P : BusLog τ → Scheduler τ Timer → Prop}

/-- What holds of the bus log and the timers through one signal holds through all that are sent at once. -/
theorem sendAll_bus (m : Machine τ) (signals : List Signal)
    (hsend : ∀ bus timers signal, P bus timers →
      P (bus.record m.clock signal) (timers.schedule m.clock bus.lifetime (.expire bus.nextNumber)))
    (h : P m.bus m.timers) : (m.sendAll signals).clock = m.clock ∧
      P (m.sendAll signals).bus (m.sendAll signals).timers := by
  induction signals generalizing m with
  | nil => exact ⟨rfl, h⟩
  | cons signal signals ih => exact ih (m.send signal) hsend (hsend m.bus m.timers signal h)

/-- What holds through signals and through the timer for the marks of the cache holds through a step. -/
theorem step_bus (m : Machine τ)
    (hsend : ∀ bus timers signal, P bus timers →
      P (bus.record m.clock signal) (timers.schedule m.clock bus.lifetime (.expire bus.nextNumber)))
    (hdefer : ∀ bus timers, P bus timers → P bus (timers.schedule m.clock m.stepDuration .clearMarks))
    (h : P m.bus m.timers) : P m.step.machine.bus m.step.machine.timers := by
  have hcarry : ∀ i e, P (m.enter.carry i e).bus (m.enter.carry i e).timers := by
    intro i e
    let n := { m.enter with storage := e.storage, pc := m.enter.pcAfter, ir := m.enter.irAfter i }
    obtain ⟨hclock, hsent⟩ := n.sendAll_bus e.signals hsend h
    unfold carry
    dsimp only
    split
    · show P (n.sendAll e.signals).bus
        ((n.sendAll e.signals).timers.schedule (n.sendAll e.signals).clock m.stepDuration .clearMarks)
      rw [hclock]
      exact hdefer _ _ hsent
    · exact hsent
  rcases m.step_cases with ⟨-, -, hs⟩ | ⟨i, f, -, -, -, hs⟩ | ⟨i, e, text, -, -, -, -, hs⟩ |
    ⟨i, e, u, -, -, -, -, hs⟩
  · rw [hs]
    exact h
  · rw [hs]
    exact h
  · obtain ⟨index, stage, hp⟩ := (m.enter.recorded i e).proceed_eq
    rw [hs, hp]
    exact hcarry i e
  · rw [hs]
    exact hcarry i e

end

/-! ## Every operation -/

variable {m : Machine Rat}

theorem tracked_step (h : m.bus.Tracked m.timers) : m.step.machine.bus.Tracked m.step.machine.timers :=
  m.step_bus (fun _ _ signal ht => ht.record m.clock _ signal) (fun _ _ ht => ht.defer m.clock _) h

theorem tracked_perform (h : m.bus.Tracked m.timers) (op : Op Rat) :
    (m.perform op).bus.Tracked (m.perform op).timers := by
  cases op with
  | load program => exact BusLog.tracked_nil m.bus.lifetime (.advanceEpoch m.timers) rfl
  | reset => exact BusLog.tracked_nil m.bus.lifetime (.advanceEpoch m.timers) rfl
  | step => exact tracked_step h
  | advance ms => exact h
  | poll => exact tracked_poll h
  | setDuration ms =>
    unfold perform setDuration
    dsimp only
    split
    · exact h
    · exact { h with }

theorem tracked_after (h : m.bus.Tracked m.timers) (ops : List (Op Rat)) :
    (m.after ops).bus.Tracked (m.after ops).timers :=
  after_of_perform (P := fun m => m.bus.Tracked m.timers) (fun _ op hm (_ : True) => tracked_perform hm op) h
    fun _ _ => trivial

theorem tracked_of_setup {s : Setup Rat} {clock : Rat} (h : ofSetup s clock = .ok m) :
    m.bus.Tracked m.timers := by
  rw [(ofSetup_ok h).2.2]
  exact BusLog.tracked_nil _ Scheduler.wf_empty rfl

/-! ## One transfer -/

/-- The transfer at a place of the bus log; its timer, while it is waiting, is due at the deadline. -/
structure Lives (m : Machine Rat) (k : Nat) (x : Transfer Rat) (deadline : Rat) : Prop where
  shown : m.bus.transfers[k]? = some x
  timed : ∀ t ∈ m.timers.queue, t.payload = .expire x.number → t.due = deadline

/-- Whether one of the operations is a poll at a reading of the clock no earlier than a time. -/
def Polled (m : Machine Rat) (ops : List (Op Rat)) (time : Rat) : Prop :=
  ∃ before later, ops = before ++ .poll :: later ∧ time ≤ (m.after before).clock

theorem polled_cons (m : Machine Rat) (op : Op Rat) (ops : List (Op Rat)) (time : Rat) :
    m.Polled (op :: ops) time ↔ (op = .poll ∧ time ≤ m.clock) ∨ (m.perform op).Polled ops time := by
  constructor
  · rintro ⟨before, later, hops, hle⟩
    cases before with
    | nil =>
      cases hops
      exact .inl ⟨rfl, hle⟩
    | cons first before =>
      cases hops
      exact .inr ⟨before, later, rfl, hle⟩
  · rintro (⟨rfl, hle⟩ | ⟨before, later, rfl, hle⟩)
    · exact ⟨[], ops, rfl, hle⟩
    · exact ⟨op :: before, later, rfl, hle⟩

namespace Lives

variable {k : Nat} {x : Transfer Rat} {deadline : Rat}

/-- A step records other transfers and sets other timers. -/
theorem step (h : m.Lives k x deadline) (hm : m.bus.Tracked m.timers) : m.step.machine.Lives k x deadline := by
  have hkept := m.step_bus (P := fun bus timers => bus.Tracked timers ∧ bus.transfers[k]? = some x ∧
      ∀ t ∈ timers.queue, t.payload = .expire x.number → t.due = deadline)
    (fun bus timers signal ⟨ht, hx, hd⟩ => ⟨ht.record m.clock _ signal, ?_, fun t hin hn => ?_⟩)
    (fun bus timers ⟨ht, hx, hd⟩ => ⟨ht.defer m.clock _, hx, fun t hin hn => ?_⟩) ⟨hm, h.shown, h.timed⟩
  · exact ⟨hkept.2.1, hkept.2.2⟩
  · show (bus.transfers ++ [_])[k]? = some x
    rw [List.getElem?_append_left (List.getElem?_eq_some_iff.1 hx).1]
    exact hx
  · exact hd t (ht.mem_of_schedule (List.mem_of_getElem? hx) hin hn) hn
  · exact hd t (BusLog.mem_of_schedule_marks hin hn) hn

/-- A poll ends the transfer if its deadline is over. -/
theorem poll (h : m.Lives k x deadline) (hm : m.bus.Tracked m.timers) :
    ∃ active, m.poll.Lives k { x with active } deadline ∧
      (active = true ↔ x.active = true ∧ ¬ deadline ≤ m.clock) := by
  refine ⟨x.active && !ending m.due x.number, ⟨?_, fun t ht hn => ?_⟩, ?_⟩
  · rw [bus_poll, List.getElem?_map, h.shown]
    rfl
  · rw [timers_poll] at ht
    exact h.timed t ((hm.wf.drain.2.1 t).1 ht).1 hn
  · rw [Bool.and_eq_true, Bool.not_eq_true', Bool.eq_false_iff, Ne, ending_due hm]
    refine and_congr_right fun hactive => not_congr ⟨?_, fun hdue => ?_⟩
    · rintro ⟨t, ht, hdue, hn⟩
      rwa [h.timed t ht hn] at hdue
    · obtain ⟨t, ht, hn⟩ := (hm.pending x (List.mem_of_getElem? h.shown)).1 hactive
      exact ⟨t, ht, (h.timed t ht hn).trans_le hdue, hn⟩

/-- Whatever is done until the history starts over, only a poll after the deadline ends the transfer. -/
theorem perform (h : m.Lives k x deadline) (hm : m.bus.Tracked m.timers) {op : Op Rat}
    (ho : op.restarts = false) : ∃ active, (m.perform op).Lives k { x with active } deadline ∧
      (active = true ↔ x.active = true ∧ ¬ (op = .poll ∧ deadline ≤ m.clock)) := by
  cases op with
  | load program => cases ho
  | reset => cases ho
  | step => exact ⟨x.active, h.step hm, by simp⟩
  | advance ms => exact ⟨x.active, ⟨h.shown, h.timed⟩, by simp⟩
  | poll =>
    obtain ⟨active, hlives, hiff⟩ := h.poll hm
    exact ⟨active, hlives, by simpa using hiff⟩
  | setDuration ms =>
    refine ⟨x.active, ?_, by simp⟩
    unfold Machine.perform setDuration
    dsimp only
    split
    · exact h
    · exact ⟨h.shown, h.timed⟩

theorem after (h : m.Lives k x deadline) (hm : m.bus.Tracked m.timers) {ops : List (Op Rat)}
    (ho : ∀ op ∈ ops, op.restarts = false) : ∃ active, (m.after ops).Lives k { x with active } deadline ∧
      (active = true ↔ x.active = true ∧ ¬ m.Polled ops deadline) := by
  induction ops generalizing m x with
  | nil =>
    refine ⟨x.active, h, ?_⟩
    simp [Polled]
  | cons op ops ih =>
    obtain ⟨active, hlives, hiff⟩ := h.perform hm (ho op (List.mem_cons_self ..))
    obtain ⟨active', hlives', hiff'⟩ := ih hlives (tracked_perform hm op) fun op' hop' =>
      ho op' (List.mem_cons_of_mem op hop')
    refine ⟨active', hlives', ?_⟩
    rw [hiff', hiff, polled_cons, not_or, and_assoc]

end Lives

/-! ## New transfers -/

/-- The transfers from a place on are active, were recorded now, and have timers that count from now. -/
structure Fresh (start : Nat) (now lifetime : Rat) (log : BusLog Rat) (timers : Scheduler Rat Timer) : Prop where
  tracked : log.Tracked timers
  lasting : log.lifetime = lifetime
  sent : ∀ k x, log.transfers[k]? = some x → start ≤ k → x.active = true ∧ x.timestamp = now ∧
    ∀ t ∈ timers.queue, t.payload = .expire x.number → t.due = now + Quantity.atLeast Quantity.zero lifetime

theorem Fresh.record {start : Nat} {now lifetime : Rat} {log : BusLog Rat} {timers : Scheduler Rat Timer}
    (h : Fresh start now lifetime log timers) (signal : Signal) :
    Fresh start now lifetime (log.record now signal)
      (timers.schedule now log.lifetime (.expire log.nextNumber)) := by
  refine ⟨h.tracked.record now _ signal, h.lasting, records_concat (fun k x hx hk => ?_) fun _ => ⟨rfl, rfl, ?_⟩⟩
  · obtain ⟨hactive, hstamp, htimed⟩ := h.sent k x hx hk
    refine ⟨hactive, hstamp, fun t ht hn => ?_⟩
    exact htimed t (h.tracked.mem_of_schedule (List.mem_of_getElem? hx) ht hn) hn
  · intro t ht hn
    rcases (Scheduler.mem_schedule ..).1 ht with rfl | ht
    · rw [← h.lasting]
      rfl
    · exact absurd (h.tracked.known t ht _ hn) (Nat.lt_irrefl _)

/-- The transfers that a step adds are active for the lifetime that the bus log has. -/
theorem lives_step (hm : m.bus.Tracked m.timers) {k : Nat} (hold : m.bus.transfers.length ≤ k)
    (hnew : k < m.step.machine.bus.transfers.length) :
    ∃ x, x.active = true ∧ x.timestamp = m.clock ∧
      m.step.machine.Lives k x (m.clock + Quantity.atLeast Quantity.zero m.bus.lifetime) := by
  have hfresh := m.step_bus (P := Fresh m.bus.transfers.length m.clock m.bus.lifetime)
    (fun bus timers signal h => h.record signal) (fun bus timers h => ?_) ⟨hm, rfl, fun k x hx hk => ?_⟩
  · have hx := List.getElem?_eq_getElem hnew
    obtain ⟨hactive, hstamp, htimed⟩ := hfresh.sent k _ hx hold
    exact ⟨_, hactive, hstamp, hx, htimed⟩
  · refine ⟨h.tracked.defer m.clock _, h.lasting, fun k x hx hk => ?_⟩
    obtain ⟨hactive, hstamp, htimed⟩ := h.sent k x hx hk
    exact ⟨hactive, hstamp, fun t ht hn => htimed t (BusLog.mem_of_schedule_marks ht hn) hn⟩
  · have hin := (List.getElem?_eq_some_iff.1 hx).1
    omega

/-! ## Every run -/

theorem lifetimeFor_eq (ms : Rat) :
    Quantity.atLeast Quantity.zero (BusLog.lifetimeFor ms) = max 500 (ms + 500) := by
  show Quantity.atLeast 0 (Quantity.atLeast 500 (ms + 500)) = max 500 (ms + 500)
  rw [Quantity.atLeast_eq_max, Quantity.atLeast_eq_max]
  exact max_eq_right ((by decide : (0 : Rat) ≤ 500).trans (le_max_left 500 (ms + 500)))

/-- The operations after which the transfer at a place of the bus log was recorded, by a step, and those
since. The history has not started over since then. -/
structure SentBetween (made : Machine Rat) (k : Nat) (before later : List (Op Rat)) : Prop where
  keeps : ∀ op ∈ later, op.restarts = false
  old : (made.after before).bus.transfers.length ≤ k
  new : k < ((made.after before).perform .step).bus.transfers.length

/-- What is done between steps records no transfer, and what starts the history over leaves none. -/
theorem length_transfers (m : Machine Rat) {op : Op Rat} (ho : op ≠ .step) :
    (m.perform op).bus.transfers.length ≤ m.bus.transfers.length := by
  cases op with
  | load program => exact Nat.zero_le _
  | reset => exact Nat.zero_le _
  | step => exact absurd rfl ho
  | advance ms => exact le_refl _
  | poll =>
    show m.poll.bus.transfers.length ≤ _
    rw [bus_poll, List.length_map]
  | setDuration ms =>
    unfold perform setDuration
    dsimp only
    split <;> exact le_refl _

/-- Every transfer of the bus log was recorded by some step. -/
theorem exists_sent (made : Machine Rat) (hmade : made.bus.transfers = []) {ops : List (Op Rat)} {k : Nat}
    (hk : k < (made.after ops).bus.transfers.length) :
    ∃ before later, ops = before ++ .step :: later ∧ SentBetween made k before later := by
  induction ops using List.reverseRecOn with
  | nil =>
    rw [show made.after [] = made from rfl, hmade] at hk
    cases hk
  | append_singleton ops op ih =>
    have hlast : made.after (ops ++ [op]) = (made.after ops).perform op := List.foldl_concat ..
    rw [hlast] at hk
    by_cases hold : k < (made.after ops).bus.transfers.length
    · obtain ⟨before, later, rfl, hsent⟩ := ih hold
      have hop : op.restarts = false := by
        cases op with
        | load program => cases hk
        | reset => cases hk
        | _ => rfl
      refine ⟨before, later ++ [op], by simp, fun op' hop' => ?_, hsent.old, hsent.new⟩
      rcases List.mem_append.1 hop' with hop' | hop'
      · exact hsent.keeps op' hop'
      · rw [List.mem_singleton.1 hop']
        exact hop
    · by_cases hstep : op = .step
      · subst hstep
        exact ⟨ops, [], rfl, fun op hop => absurd hop List.not_mem_nil, not_lt.1 hold, hk⟩
      · have := length_transfers (made.after ops) hstep
        omega

/-- In every state that a machine comes to, by any operations in any order, the transfers of the bus log
are numbered from one. Each was recorded by one of the steps since the history last started over, and is
stamped with the reading of the clock at that step. It is inactive exactly if a poll since then found the
clock at the end of its lifetime or past it, half a second more than the duration that steps had when it
was recorded and at least half a second; no later duration and no other timer counts. -/
theorem transfer_lifetime {s : Setup Rat} {clock : Rat} {made : Machine Rat} (h : ofSetup s clock = .ok made)
    {ops : List (Op Rat)} {k : Nat} {x : Transfer Rat} (hx : (made.after ops).bus.transfers[k]? = some x) :
    x.id = s!"transfer-{k + 1}" ∧
    (∃ before later, ops = before ++ .step :: later ∧ SentBetween made k before later) ∧
    ∀ before later, ops = before ++ .step :: later → SentBetween made k before later →
      x.timestamp = (made.after before).clock ∧
      (x.active = false ↔ ((made.after before).perform .step).Polled later
        ((made.after before).clock + max 500 ((made.after before).stepDuration + 500))) := by
  have hmade := tracked_of_setup h
  refine ⟨?_, exists_sent made (by rw [(ofSetup_ok h).2.2]) (List.getElem?_eq_some_iff.1 hx).1, ?_⟩
  · unfold Transfer.id
    rw [(tracked_after hmade ops).numbered k x hx]
  · rintro before later rfl hsent
    have hm := tracked_after hmade before
    obtain ⟨y, hactive, hstamp, hlives⟩ := lives_step hm hsent.old hsent.new
    obtain ⟨active, hnow, hiff⟩ := hlives.after (tracked_step hm) hsent.keeps
    have hlifetime := (keeps_after h before).timed.lifetime
    rw [hlifetime, lifetimeFor_eq] at hiff
    have hafter : made.after (before ++ .step :: later) = ((made.after before).step.machine).after later :=
      List.foldl_append
    rw [hafter, hnow.shown] at hx
    cases hx
    refine ⟨hstamp, ?_⟩
    show active = false ↔ _
    rw [← Bool.not_eq_true, hiff, not_and_not_right]
    exact ⟨fun hp => hp hactive, fun hp _ => hp⟩

/-- Two transfers are recorded while steps take a second, and one later, when they take no time. -/
def lifetimeRun : List (Op Rat) :=
  [.load [{ opcode := .mov, operand1 := some (.literal 7), destination := .given "R1" }], .step, .advance 200,
    .setDuration 0, .step, .step, .advance 600, .poll]

/-- The poll ends the later transfer only. -/
theorem transfer_lifetime_shorter :
    ((small false false).after lifetimeRun).bus.transfers.map (·.active) = [true, true, false] ∧
    ∀ x, ((small false false).after lifetimeRun).bus.transfers[2]? = some x →
      x.id = "transfer-3" ∧ x.timestamp = 200 ∧ x.active = false := by
  refine ⟨by decide +kernel, fun x hx => ?_⟩
  obtain ⟨hid, -, hlife⟩ := transfer_lifetime (ofSetup_small false false) hx
  have hsent : SentBetween (small false false) 2 (lifetimeRun.take 5) [.advance 600, .poll] :=
    ⟨by decide, by decide +kernel, by decide +kernel⟩
  obtain ⟨hstamp, hactive⟩ := hlife _ _ rfl hsent
  have hclock : ((small false false).after (lifetimeRun.take 5)).clock = 200 := by decide +kernel
  have hpolled : (((small false false).after (lifetimeRun.take 5)).perform .step).Polled [.advance 600, .poll]
      (((small false false).after (lifetimeRun.take 5)).clock +
        max 500 (((small false false).after (lifetimeRun.take 5)).stepDuration + 500)) :=
    ⟨[.advance 600], [], rfl, by decide +kernel⟩
  exact ⟨hid, hstamp.trans hclock, hactive.2 hpolled⟩

end Machine

end PhaseMachine
