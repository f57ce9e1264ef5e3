/-
What shows of the last program after another one was loaded. Loading takes back nearly all of it; but
general registers stay active, for only a STORE makes them inactive, and the cache keeps its marks, for
only the timer that a STORE sets clears them, and loading drops the timers. So a program that is left after a
STORE leaves no register active, and no mark once its timers have gone off; one that is left between an
EXECUTE and its STORE leaves the register active that it has written.
-/
import PhaseMachine.Proofs.Execution.Effect
import PhaseMachine.Proofs.Machine.Lifetime

namespace PhaseMachine

/-! ## Active registers -/

namespace RegisterBank

/-- The bank has an active register of a name. -/
def Active (b : RegisterBank) (name : String) : Prop :=
  ∃ r ∈ b.registers, r.name = name ∧ r.active = true

instance (b : RegisterBank) (name : String) : Decidable (b.Active name) :=
  inferInstanceAs (Decidable (∃ r ∈ b.registers, r.name = name ∧ r.active = true))

/-- No register is active but the control registers. -/
def Resting (b : RegisterBank) : Prop :=
  ∀ name, name ∉ controlNames → ¬ b.Active name

variable {b : RegisterBank} {name other : String}

theorem active_mapRegisters {f : Register → Register} (hname : ∀ r, (f r).name = r.name) :
    (b.mapRegisters f hname).Active name ↔ ∃ r ∈ b.registers, r.name = name ∧ (f r).active = true := by
  unfold Active mapRegisters
  simp only [List.mem_map, exists_exists_and_eq_and, hname]

theorem active_setActive_false : (b.setActive other false).Active name ↔ b.Active name ∧ name ≠ other := by
  unfold setActive modify
  rw [active_mapRegisters]
  unfold Active
  constructor
  · rintro ⟨r, hr, rfl, ha⟩
    split at ha
    · cases ha
    · next hne => exact ⟨⟨r, hr, rfl, ha⟩, hne⟩
  · rintro ⟨⟨r, hr, rfl, ha⟩, hne⟩
    exact ⟨r, hr, rfl, by rwa [if_neg hne]⟩

/-- Contents of one register concern no other. -/
theorem active_modify_of_ne {f : Register → Register} (hname : ∀ r, (f r).name = r.name) (hne : name ≠ other) :
    (b.modify other f hname).Active name ↔ b.Active name := by
  unfold modify
  rw [active_mapRegisters]
  refine exists_congr fun r => and_congr_right fun _ => and_congr_right fun hn => ?_
  rw [if_neg (hn ▸ hne)]

theorem active_write_of_ne (hne : name ≠ other) (value : Int) :
    (b.write other value).Active name ↔ b.Active name :=
  active_modify_of_ne _ hne

theorem active_setActive_of_ne (hne : name ≠ other) (active : Bool) :
    (b.setActive other active).Active name ↔ b.Active name :=
  active_modify_of_ne _ hne

theorem Active.setActive (h : b.Active name) (other : String) : (b.setActive other true).Active name := by
  obtain ⟨r, hr, hn, ha⟩ := h
  unfold RegisterBank.setActive modify
  rw [active_mapRegisters]
  refine ⟨r, hr, hn, ?_⟩
  split
  · rfl
  · exact ha

theorem active_write_self (hn : name ∈ b.names) (value : Int) : (b.write name value).Active name := by
  obtain ⟨r, hr, rfl⟩ := List.mem_map.1 hn
  unfold write modify
  rw [active_mapRegisters]
  exact ⟨r, hr, rfl, by rw [if_pos rfl]⟩

theorem resting_deactivateGeneral (b : RegisterBank) : b.deactivateGeneral.Resting := by
  intro name hn
  unfold deactivateGeneral
  rw [active_mapRegisters]
  rintro ⟨r, -, rfl, ha⟩
  rw [if_neg (by simpa using hn)] at ha
  cases ha

end RegisterBank

/-- No level shows an access. -/
def Cache.Hierarchy.Unmarked (h : Cache.Hierarchy) : Prop :=
  ∀ t, (h.level t).mark = none

theorem Cache.Hierarchy.unmarked_clearMarks (h : Cache.Hierarchy) : h.clearMarks.Unmarked := fun t => by
  cases t <;> rfl

/-! ## Effects -/

namespace Action

theorem active_activate {b : RegisterBank} {name : String} (h : b.Active name) (source : Source) :
    (activate b source).Active name := by
  unfold activate
  split
  · exact h.setActive _
  · exact h

/-- A register that an action changes is active after it. -/
theorem active_changed {a : Action} {s : Storage} (h : a.Found s) (cycle : Int) :
    ∀ c ∈ (a.effect s cycle).registerChanges, (a.effect s cycle).storage.registers.Active c.name := by
  have hwritten : ∀ {d : Register} (value : Int), s.registers.find? d.name = some d →
      (s.registers.write d.name value).Active d.name := fun {d} value hd =>
    RegisterBank.active_write_self ((s.registers.isSome_find? d.name).1 (by rw [hd]; rfl)) value
  intro c hc
  cases a with
  | set d source =>
    obtain rfl := List.mem_singleton.1 hc
    exact hwritten _ h
  | compute d x y result =>
    obtain rfl := List.mem_singleton.1 hc
    exact active_activate (active_activate (hwritten _ h) x) y
  | loadCell d address asFlag =>
    obtain rfl := List.mem_singleton.1 hc
    exact hwritten _ h.1
  | storeCell source address old => cases hc
  | nothing => cases hc

end Action

namespace Machine

variable {τ : Type}

/-! ## The work of a stage -/

section

variable {m : Machine τ} {i : Instruction} {e : Effect}

/-- Fetching and decoding show control registers alone. -/
theorem work_quiet (h : m.work i = .ok e) (hs : m.stage = .fetch ∨ m.stage = .decode) :
    (∀ name, name ∉ RegisterBank.controlNames →
      (e.storage.registers.Active name ↔ m.storage.registers.Active name)) ∧
    e.storage.cache = m.storage.cache := by
  have hne : ∀ {name}, name ∉ RegisterBank.controlNames → name ≠ "PC" ∧ name ≠ "IR" := fun hn => by
    simpa [RegisterBank.controlNames] using hn
  unfold work at h
  rcases hs with hs | hs
  · rw [hs] at h
    cases h
    exact ⟨fun name hn => RegisterBank.active_write_of_ne (hne hn).1 _, rfl⟩
  · rw [hs] at h
    cases h
    exact ⟨fun name hn => RegisterBank.active_setActive_of_ne (hne hn).2 true, rfl⟩

theorem active_execute (h : m.work i = .ok e) (hs : m.stage = .execute) :
    ∀ c ∈ e.registerChanges, e.storage.registers.Active c.name := by
  unfold work at h
  rw [hs] at h
  cases ha : i.attempt m.strict m.storage m.cycle with
  | error f => rw [ha] at h; cases h
  | ok a =>
    rw [ha] at h
    cases h
    cases a with
    | done e =>
      obtain ⟨a, -, hfound, rfl⟩ := Instruction.execute_ok (Instruction.attempt_done ha)
      exact Action.active_changed hfound m.cycle
    | skipped x => exact fun c hc => absurd hc List.not_mem_nil

theorem resting_store (h : m.work i = .ok e) (hs : m.stage = .store) : e.storage.registers.Resting := by
  unfold work at h
  rw [hs] at h
  cases h
  exact RegisterBank.resting_deactivateGeneral _

end

/-! ## Timers for the marks -/

variable [Quantity τ]

/-- The timer that clears the marks of the cache is waiting. -/
def MarksTimed (m : Machine τ) : Prop :=
  ∃ t ∈ m.timers.queue, t.payload = .clearMarks

/-- Every timer in the queue is still to run. -/
def TimersLive (m : Machine τ) : Prop :=
  ∀ t ∈ m.timers.queue, m.timers.live t = true

theorem TimersLive.step {m : Machine τ} (h : m.TimersLive) : m.step.machine.TimersLive := by
  have hset : ∀ (timers : Scheduler τ Timer) (delay : τ) (timer : Timer),
      (∀ t ∈ timers.queue, timers.live t = true) →
      ∀ t ∈ (timers.schedule m.clock delay timer).queue, (timers.schedule m.clock delay timer).live t = true := by
    intro timers delay timer hl t ht
    rcases (Scheduler.mem_schedule ..).1 ht with rfl | ht
    · exact beq_self_eq_true timers.epoch
    · exact hl t ht
  exact m.step_bus (P := fun _ timers => ∀ t ∈ timers.queue, timers.live t = true)
    (fun _ timers _ hl => hset timers _ _ hl) (fun _ timers hl => hset timers _ _ hl) h

theorem MarksTimed.step {m : Machine τ} (h : m.MarksTimed) : m.step.machine.MarksTimed := by
  obtain ⟨t, ht, hp⟩ := h
  have hkept : t ∈ m.step.machine.timers.queue :=
    m.step_bus (P := fun _ timers => t ∈ timers.queue) (fun _ _ _ hin => (Scheduler.mem_schedule ..).2 (.inr hin))
      (fun _ _ hin => (Scheduler.mem_schedule ..).2 (.inr hin)) ht
  exact ⟨t, hkept, hp⟩

/-- A STORE that is carried out sets the timer. -/
theorem marksTimed_store {m : Machine τ} {i : Instruction} (hi : m.program[m.index]? = some i)
    (hs : m.stage = .store) : m.step.machine.MarksTimed := by
  have hcarry : ∀ e, ∃ t ∈ (m.enter.carry i e).timers.queue, t.payload = .clearMarks := fun e => by
    unfold carry
    rw [if_pos (show m.enter.stage = .store from hs)]
    exact ⟨_, (Scheduler.mem_schedule ..).2 (.inl rfl), rfl⟩
  obtain ⟨e, hw⟩ : ∃ e, m.enter.work i = .ok e := by
    unfold work
    rw [show m.enter.stage = .store from hs]
    exact ⟨_, rfl⟩
  rcases step_of_ok hi hw with ⟨text, -, -, hm⟩ | ⟨u, -, -, hm⟩
  · obtain ⟨index, stage, hp⟩ := (m.enter.recorded i e).proceed_eq
    rw [hm, hp]
    exact hcarry e
  · rw [hm]
    exact hcarry e

omit [Quantity τ] in
theorem unmarked_fires {m : Machine τ} (h : m.storage.cache.Unmarked) (ts : List (Task τ Timer)) :
    (ts.foldl (fun m t => m.fire t.payload) m).storage.cache.Unmarked := by
  obtain ⟨bus, cache, he, hc⟩ := m.fires_eq ts
  rw [he]
  rcases hc with rfl | rfl
  · exact h
  · exact m.storage.cache.unmarked_clearMarks

omit [Quantity τ] in
/-- The marks are gone once their timer has gone off among others. -/
theorem unmarked_fires_of_mem (m : Machine τ) {t : Task τ Timer} {ts : List (Task τ Timer)} (ht : t ∈ ts)
    (hp : t.payload = .clearMarks) : (ts.foldl (fun m t => m.fire t.payload) m).storage.cache.Unmarked := by
  induction ts generalizing m with
  | nil => cases ht
  | cons first ts ih =>
    rcases List.mem_cons.1 ht with rfl | ht
    · refine unmarked_fires (m := m.fire t.payload) ?_ ts
      rw [hp]
      exact m.storage.cache.unmarked_clearMarks
    · exact ih (m.fire first.payload) ht

/-- After a poll there are no marks, or the timer is waiting as before. -/
theorem marks_poll {m : Machine τ} (h : m.TimersLive) (hm : ¬ m.storage.cache.Unmarked → m.MarksTimed) :
    ¬ m.poll.storage.cache.Unmarked → m.poll.MarksTimed := by
  intro hmarked
  have hbefore : ¬ m.storage.cache.Unmarked := fun hu =>
    hmarked (unmarked_fires (m := { m with timers := (m.timers.drain m.clock).2 }) hu m.due)
  obtain ⟨t, ht, hp⟩ := hm hbefore
  rcases (m.timers.drain_keeps m.clock).2.2 t ht (h t ht) with hdue | hleft
  · exact absurd (unmarked_fires_of_mem { m with timers := (m.timers.drain m.clock).2 } hdue hp) hmarked
  · refine ⟨t, ?_, hp⟩
    rw [timers_poll]
    exact hleft

/-! ## What the history tells -/

/-- The latest record of an EXECUTE, which shows registers, or of a STORE, which hides them. -/
def latestShow? (history : List Record) : Option Record :=
  history.reverse.find? fun r => r.stage = .execute ∨ r.stage = .store

theorem latestShow?_concat (history : List Record) (r : Record) :
    latestShow? (history ++ [r]) =
      if r.stage = .execute ∨ r.stage = .store then some r else latestShow? history := by
  unfold latestShow?
  rw [List.reverse_concat, List.find?_cons]
  by_cases h : r.stage = .execute ∨ r.stage = .store
  · simp [h]
  · simp [h]

/-- After a STORE no general register is active, and marks will be cleared; after an EXECUTE the register
is active that it has changed. -/
structure Displays (m : Machine τ) : Prop where
  live : m.TimersLive
  hidden : ∀ r, latestShow? m.history = some r → r.stage = .store →
    m.storage.registers.Resting ∧ (¬ m.storage.cache.Unmarked → m.MarksTimed)
  shown : ∀ r, latestShow? m.history = some r → r.stage = .execute →
    ∀ c ∈ r.registerChanges, c.name ∉ RegisterBank.controlNames → m.storage.registers.Active c.name

omit [Quantity τ] in
/-- Nothing is told by an empty history. -/
theorem displays_nil {m : Machine τ} (hh : m.history = []) (hq : m.timers.queue = #[]) : m.Displays := by
  have hnone : ∀ r, latestShow? m.history ≠ some r := fun r hr => by
    rw [hh] at hr
    cases hr
  refine ⟨fun t ht => ?_, fun r hr => absurd hr (hnone r), fun r hr => absurd hr (hnone r)⟩
  rw [hq] at ht
  exact absurd ht (Array.not_mem_empty t)

namespace Displays

variable {m : Machine τ}

omit [Quantity τ] in
/-- What keeps registers and history, and marks only with their timer, keeps what is displayed. -/
theorem congr {n : Machine τ} (h : m.Displays) (hl : n.TimersLive) (hh : n.history = m.history)
    (hr : n.storage.registers = m.storage.registers)
    (hm : (¬ m.storage.cache.Unmarked → m.MarksTimed) → ¬ n.storage.cache.Unmarked → n.MarksTimed) :
    n.Displays := by
  refine ⟨hl, fun r hlatest hs => ?_, fun r hlatest hs => ?_⟩
  · rw [hh] at hlatest
    obtain ⟨hrest, hmarks⟩ := h.hidden r hlatest hs
    exact ⟨hr ▸ hrest, hm hmarks⟩
  · rw [hh] at hlatest
    rw [hr]
    exact h.shown r hlatest hs

theorem poll (h : m.Displays) : m.poll.Displays := by
  obtain ⟨bus, timers, cache, he, -⟩ := m.poll_eq
  refine h.congr (fun t ht => ?_) (by rw [he]) (by rw [he]) (marks_poll h.live)
  obtain ⟨hsame, hsub, -⟩ := m.timers.drain_keeps m.clock
  rw [timers_poll] at ht ⊢
  rw [hsame]
  exact h.live t (hsub t ht)

/-- Fetching and decoding leave the display of general registers, an EXECUTE shows what it changes, and a
STORE takes it back. -/
theorem step (h : m.Displays) : m.step.machine.Displays := by
  have hlive := h.live.step
  have htimed : m.MarksTimed → m.step.machine.MarksTimed := MarksTimed.step
  rcases m.step_machine with ⟨-, hm⟩ | ⟨i, f, -, -, hm⟩ | ⟨i, e, index, stage, bus, timers, hi, hw, hm⟩
  · refine h.congr hlive (by rw [hm]) (by rw [hm]) fun hk hmarked => htimed (hk ?_)
    rwa [hm] at hmarked
  · refine h.congr hlive (by rw [hm]; rfl) (by rw [hm]; rfl) fun hk hmarked => htimed (hk ?_)
    rwa [hm] at hmarked
  · have hstorage : m.step.machine.storage = e.storage := by rw [hm]
    have hhistory : m.step.machine.history = m.history ++ [m.enter.entry i e] := by rw [hm]
    have hlatest : latestShow? m.step.machine.history =
        if m.stage = .execute ∨ m.stage = .store then some (m.enter.entry i e) else latestShow? m.history := by
      rw [hhistory, latestShow?_concat]
      rfl
    have hquiet : m.stage = .fetch ∨ m.stage = .decode → m.step.machine.Displays := fun hs => by
      obtain ⟨hregisters, hcache⟩ := work_quiet hw hs
      rw [if_neg (by rcases hs with hs | hs <;> simp [hs])] at hlatest
      refine ⟨hlive, fun r hr hstore => ?_, fun r hr hexecute c hc hn => ?_⟩
      · obtain ⟨hrest, hmarks⟩ := h.hidden r (hlatest ▸ hr) hstore
        rw [hstorage, hcache]
        exact ⟨fun name hn ha => hrest name hn ((hregisters name hn).1 ha),
          fun hmarked => htimed (hmarks hmarked)⟩
      · rw [hstorage]
        exact (hregisters c.name hn).2 (h.shown r (hlatest ▸ hr) hexecute c hc hn)
    cases hs : m.stage with
    | fetch => exact hquiet (.inl hs)
    | decode => exact hquiet (.inr hs)
    | execute =>
      rw [hs, if_pos (.inl rfl)] at hlatest
      refine ⟨hlive, fun r hr hstore => ?_, fun r hr _ c hc _ => ?_⟩
      · rw [hlatest] at hr
        cases hr
        rw [show (m.enter.entry i e).stage = .execute from hs] at hstore
        cases hstore
      · rw [hlatest] at hr
        cases hr
        rw [hstorage]
        exact active_execute hw hs c hc
    | store =>
      rw [hs, if_pos (.inr rfl)] at hlatest
      refine ⟨hlive, fun r hr _ => ?_, fun r hr hexecute => ?_⟩
      · rw [hstorage]
        exact ⟨resting_store hw hs, fun _ => marksTimed_store hi hs⟩
      · rw [hlatest] at hr
        cases hr
        rw [show (m.enter.entry i e).stage = .store from hs] at hexecute
        cases hexecute

theorem perform (h : m.Displays) (op : Op τ) : (m.perform op).Displays := by
  cases op with
  | load program => exact displays_nil rfl rfl
  | reset => exact displays_nil rfl rfl
  | step => exact h.step
  | advance ms => exact ⟨h.live, h.hidden, h.shown⟩
  | poll => exact h.poll
  | setDuration ms =>
    obtain ⟨bus, stepDuration, he⟩ := m.setDuration_eq ms
    rw [he]
    exact ⟨h.live, h.hidden, h.shown⟩

end Displays

theorem Reachable.displays {m : Machine τ} (hm : m.Reachable) : m.Displays := by
  induction hm with
  | made h =>
    rw [(ofSetup_ok h).2.2]
    exact displays_nil rfl rfl
  | perform op _ ih => exact ih.perform op

/-! ## Loading -/

omit [Quantity τ] in
theorem active_load (m : Machine τ) (program : Program) (name : String) :
    (m.load program).storage.registers.Active name ↔
      m.storage.registers.Active name ∧ name ∉ RegisterBank.controlNames := by
  show ((m.storage.registers.setActive "PC" false).setActive "IR" false).Active name ↔ _
  rw [RegisterBank.active_setActive_false, RegisterBank.active_setActive_false, and_assoc]
  simp [RegisterBank.controlNames]

omit [Quantity τ] in
theorem flags_load (m : Machine τ) (program : Program) :
    ∀ c ∈ (m.load program).storage.memory.cells, c.active = false ∧ c.used = false := by
  intro c hc
  obtain ⟨old, -, rfl⟩ := Array.mem_map.1 hc
  exact ⟨rfl, rfl⟩

/-- Take any machine that came of a setup through any operations, and load a program. The run starts over, with
nothing in the logs and no timer pending; values, lines and counters are as before; memory and the control
registers show nothing. General registers stay active and marks stay, so nothing at all shows exactly if
no general register was active and no level had a mark. After a STORE, with no EXECUTE since, no register
was, and no level had a mark unless the timer for it was waiting; after an EXECUTE, with no STORE since, the
general register that it has changed stays active. -/
theorem load_display {m : Machine τ} (hm : m.Reachable) (program : Program) :
    let loaded := m.load program
    (loaded.phase = .idle ∧ loaded.cycle = 0 ∧ loaded.pc = 0 ∧ loaded.ir = none ∧
      loaded.bus.transfers = [] ∧ loaded.history = [] ∧ loaded.timers.pending = 0) ∧
    (loaded.storage.values = m.storage.values ∧ loaded.storage.cache = m.storage.cache) ∧
    (∀ c ∈ loaded.storage.memory.cells, c.active = false ∧ c.used = false) ∧
    (∀ name, loaded.storage.registers.Active name ↔
      m.storage.registers.Active name ∧ name ∉ RegisterBank.controlNames) ∧
    ((∀ name, ¬ loaded.storage.registers.Active name) ∧ loaded.storage.cache.Unmarked ↔
      m.storage.registers.Resting ∧ m.storage.cache.Unmarked) ∧
    ∀ r, latestShow? m.history = some r →
      (r.stage = .store → (∀ name, ¬ loaded.storage.registers.Active name) ∧
        ((∀ t ∈ m.timers.queue, t.payload ≠ .clearMarks) → loaded.storage.cache.Unmarked)) ∧
      (r.stage = .execute → ∀ c ∈ r.registerChanges, c.name ∉ RegisterBank.controlNames →
        loaded.storage.registers.Active c.name) := by
  intro loaded
  have hactive : ∀ name, loaded.storage.registers.Active name ↔
      m.storage.registers.Active name ∧ name ∉ RegisterBank.controlNames := m.active_load program
  have hresting : (∀ name, ¬ loaded.storage.registers.Active name) ↔ m.storage.registers.Resting :=
    forall_congr' fun name => by rw [hactive, not_and']
  refine ⟨⟨rfl, rfl, rfl, rfl, rfl, rfl, rfl⟩, ⟨(m.still_load program).values, rfl⟩, m.flags_load program,
    hactive, and_congr_left' hresting, fun r hr => ⟨fun hs => ?_, fun hs c hc hn => ?_⟩⟩
  · obtain ⟨hrest, hmarks⟩ := hm.displays.hidden r hr hs
    refine ⟨hresting.2 hrest, fun hnone => ?_⟩
    by_contra hmarked
    obtain ⟨t, ht, hp⟩ := hmarks hmarked
    exact hnone t ht hp
  · exact (hactive c.name).2 ⟨hm.displays.shown r hr hs c hc hn, hn⟩

/-- Some steps of a program that loads a register from memory. -/
def showingRun (steps : Nat) : List (Op Rat) :=
  .load [{ opcode := .load, destination := .given "R1", address := .given 0 }] :: List.replicate steps .step

/-- Loading after the STORE and the timer for the marks leaves nothing of the display, though the timers of the
bus log are still waiting. -/
theorem load_display_stored :
    let m := (small false false).after (showingRun 4 ++ [.advance 1000, .poll])
    m.Reachable ∧ m.timers.pending = 4 ∧
    (∀ name, ¬ (m.load []).storage.registers.Active name) ∧ (m.load []).storage.cache.Unmarked := by
  intro m
  have hm : m.Reachable := (reachable_small false false).after _
  obtain ⟨r, hr, hs⟩ : ∃ r, latestShow? m.history = some r ∧ r.stage = .store := by
    refine ⟨(latestShow? m.history).get (by decide +kernel), (Option.some_get _).symm, by decide +kernel⟩
  obtain ⟨-, -, -, -, -, htold⟩ := load_display hm []
  obtain ⟨hregisters, hmarks⟩ := (htold r hr).1 hs
  exact ⟨hm, by decide +kernel, hregisters, hmarks (by decide +kernel)⟩

/-- Loading between the EXECUTE and the STORE leaves the register active and the mark of its access; and the
mark stays even after the end of the program, for its timer is dropped. -/
theorem load_keeps_display :
    let m := (small false false).after (showingRun 3)
    let finished := (small false false).after (showingRun 4)
    m.Reachable ∧ (m.load []).storage.registers.Active "R1" ∧
    (m.load []).storage.cache.l1.mark = some { address := 0, hit := false } ∧
    finished.Reachable ∧ finished.isFinished = true ∧ (finished.load []).timers.pending = 0 ∧
    (finished.load []).storage.cache.l1.mark = some { address := 0, hit := false } :=
  ⟨(reachable_small false false).after _, by decide +kernel, by decide +kernel,
    (reachable_small false false).after _, by decide +kernel, by decide +kernel, by decide +kernel⟩

end Machine

end PhaseMachine
