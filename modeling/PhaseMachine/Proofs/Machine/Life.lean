/-
The life of a machine: what can be done to it from outside, in any order, and all that a step can do.
A step finds the program over, fails before its stage, or carries the work of its stage out; the work
is an effect in every stage. Signals, timers and polls touch the bus log, the timers and the marks of
the cache only.
-/
import PhaseMachine.Machine.Step
import PhaseMachine.Proofs.Storage.Passing

namespace PhaseMachine.Machine

/-! ## Operations -/

inductive Op (τ : Type) where
  | load (program : Program)
  | step
  | reset
  | setDuration (ms : τ)
  | advance (ms : τ)
  | poll

def Op.restarts {τ : Type} : Op τ → Bool
  | .load _ | .reset => true
  | _ => false

/-- Whether it is something that is done between steps. -/
def Op.between {τ : Type} : Op τ → Bool
  | .advance _ | .setDuration _ | .poll => true
  | _ => false

def stepCount {τ : Type} : List (Op τ) → Nat
  | [] => 0
  | .step :: ops => stepCount ops + 1
  | _ :: ops => stepCount ops

variable {τ : Type}

theorem stepCount_cons (op : Op τ) (ops : List (Op τ)) :
    stepCount (op :: ops) = stepCount [op] + stepCount ops := by
  cases op <;> simp only [stepCount] <;> omega

theorem stepCount_between {op : Op τ} (h : op.between = true) : stepCount [op] = 0 := by
  cases op with
  | load program => cases h
  | reset => cases h
  | step => cases h
  | _ => rfl

/-- What does not start the history over is a step, or is done between steps. -/
theorem Op.step_or_between {op : Op τ} (ho : op.restarts = false) : op = .step ∨ op.between = true := by
  cases op with
  | load program => cases ho
  | reset => cases ho
  | step => exact .inl rfl
  | _ => exact .inr rfl

variable [Quantity τ]

/-- The machine after an operation. A duration that is refused changes nothing. -/
def perform (m : Machine τ) : Op τ → Machine τ
  | .load program => m.load program
  | .step => m.step.machine
  | .reset => m.reset
  | .setDuration ms => (m.setDuration ms).toOption.getD m
  | .advance ms => m.advance ms
  | .poll => m.poll

def after (m : Machine τ) (ops : List (Op τ)) : Machine τ :=
  ops.foldl perform m

/-- The machines that come of some setup through some operations. -/
inductive Reachable : Machine τ → Prop where
  | made {s : Setup τ} {clock : τ} {m : Machine τ} : ofSetup s clock = .ok m → Reachable m
  | perform {m : Machine τ} (op : Op τ) : Reachable m → Reachable (m.perform op)

@[simp]
theorem after_cons (m : Machine τ) (op : Op τ) (ops : List (Op τ)) :
    m.after (op :: ops) = (m.perform op).after ops := rfl

/-- What every operation of a kind keeps, any number of them keep. -/
theorem after_of_perform {P : Machine τ → Prop} {Q : Op τ → Prop}
    (hkeep : ∀ m op, P m → Q op → P (m.perform op)) {m : Machine τ} (h : P m) {ops : List (Op τ)}
    (hops : ∀ op ∈ ops, Q op) : P (m.after ops) := by
  induction ops generalizing m with
  | nil => exact h
  | cons op ops ih =>
    refine ih (hkeep m op h (hops op (List.mem_cons_self ..))) fun op' hop' => ?_
    exact hops op' (List.mem_cons_of_mem _ hop')

theorem Reachable.after {m : Machine τ} (h : Reachable m) (ops : List (Op τ)) : Reachable (m.after ops) :=
  after_of_perform (fun _ op hm (_ : True) => hm.perform op) h fun _ _ => trivial

/-! ## The work of a stage -/

/-- What a stage of an instruction does to storage, what it records and what it sends. -/
def work (m : Machine τ) (i : Instruction) : Except Failure Effect :=
  match m.stage with
  | .fetch => .ok {
      storage := { m.storage with registers := m.storage.registers.write "PC" ↑(m.pc + 1) }
      registerChanges := [⟨"PC", (m.storage.registers.value? "PC").getD 0, ↑(m.pc + 1)⟩]
      signals := fetchSignals (m.pc + 1) }
  | .decode => .ok {
      storage := { m.storage with registers := m.storage.registers.setActive "IR" true } }
  | .execute => (i.attempt m.strict m.storage m.cycle).map fun
      | .done e => e
      | .skipped _ => { storage := m.storage }
  | .store => .ok {
      storage := { m.storage with
        registers := m.storage.registers.deactivateGeneral
        memory := m.storage.memory.deactivateAll } }

/-- The count of fetches after a stage. -/
def pcAfter (m : Machine τ) : Nat :=
  if m.stage = .fetch then m.pc + 1 else m.pc

/-- The instruction fetched last after a stage of the instruction. -/
def irAfter (m : Machine τ) (i : Instruction) : Option Instruction :=
  if m.stage = .fetch then some i else m.ir

def carry (m : Machine τ) (i : Instruction) (e : Effect) : Machine τ :=
  let done := { m with storage := e.storage, pc := m.pcAfter, ir := m.irAfter i }.sendAll e.signals
  if m.stage = .store then done.defer m.stepDuration .clearMarks else done

def entry (m : Machine τ) (i : Instruction) (e : Effect) : Record :=
  {
    cycle := m.cycle, stage := m.stage, instruction := i
    registerChanges := e.registerChanges, memoryChanges := e.memoryChanges
  }

/-- The machine with the work carried out and recorded. -/
def recorded (m : Machine τ) (i : Instruction) (e : Effect) : Machine τ :=
  { m.carry i e with history := m.history ++ [m.entry i e] }

/-! ## What stays -/

/-- Sending signals concerns the bus log and the timers. -/
theorem sendAll_eq (m : Machine τ) (signals : List Signal) :
    ∃ bus timers, m.sendAll signals = { m with bus, timers } := by
  induction signals generalizing m with
  | nil => exact ⟨m.bus, m.timers, rfl⟩
  | cons s rest ih =>
    obtain ⟨bus, timers, h⟩ := ih (m.send s)
    exact ⟨bus, timers, h⟩

theorem carry_eq (m : Machine τ) (i : Instruction) (e : Effect) :
    ∃ bus timers, m.carry i e =
      { m with storage := e.storage, pc := m.pcAfter, ir := m.irAfter i, bus, timers } := by
  obtain ⟨bus, timers, h⟩ :=
    sendAll_eq { m with storage := e.storage, pc := m.pcAfter, ir := m.irAfter i } e.signals
  unfold carry
  simp only [h]
  split
  · exact ⟨bus, _, rfl⟩
  · exact ⟨bus, timers, rfl⟩

theorem recorded_eq (m : Machine τ) (i : Instruction) (e : Effect) :
    ∃ bus timers, m.recorded i e =
      { m with
        storage := e.storage, pc := m.pcAfter, ir := m.irAfter i
        history := m.history ++ [m.entry i e], bus, timers } := by
  obtain ⟨bus, timers, h⟩ := m.carry_eq i e
  refine ⟨bus, timers, ?_⟩
  unfold recorded
  rw [h]

omit [Quantity τ] in
theorem proceed_eq (m : Machine τ) : ∃ index stage, m.proceed = { m with index, stage } := by
  unfold proceed
  split
  · exact ⟨m.index, _, rfl⟩
  · exact ⟨m.index + 1, .fetch, rfl⟩

omit [Quantity τ] in
theorem storage_proceed (m : Machine τ) : m.proceed.storage = m.storage := by
  obtain ⟨index, stage, h⟩ := m.proceed_eq
  rw [h]

omit [Quantity τ] in
/-- A due timer ends a transfer or clears the marks of the cache. -/
theorem fire_eq (m : Machine τ) (t : Timer) :
    ∃ bus cache, m.fire t = { m with bus, storage := { m.storage with cache } } ∧
      (cache = m.storage.cache ∨ cache = m.storage.cache.clearMarks) := by
  cases t with
  | expire number => exact ⟨m.bus.deactivate number, m.storage.cache, rfl, .inl rfl⟩
  | clearMarks => exact ⟨m.bus, m.storage.cache.clearMarks, rfl, .inr rfl⟩

omit [Quantity τ] in
theorem fires_eq (m : Machine τ) (ts : List (Task τ Timer)) :
    ∃ bus cache, ts.foldl (fun m t => m.fire t.payload) m =
        { m with bus, storage := { m.storage with cache } } ∧
      (cache = m.storage.cache ∨ cache = m.storage.cache.clearMarks) := by
  induction ts generalizing m with
  | nil => exact ⟨m.bus, m.storage.cache, rfl, .inl rfl⟩
  | cons t ts ih =>
    obtain ⟨bus, cache, h, hc⟩ := m.fire_eq t.payload
    obtain ⟨bus', cache', h', hc'⟩ := ih (m.fire t.payload)
    refine ⟨bus', cache', ?_, ?_⟩
    · rw [List.foldl_cons, h', h]
    · rw [h] at hc'
      -- clearing marks twice is clearing them once
      rcases hc with rfl | rfl <;> rcases hc' with rfl | rfl
      · exact .inl rfl
      · exact .inr rfl
      · exact .inr rfl
      · exact .inr rfl

/-- A poll concerns the bus log, the timers and the marks of the cache. -/
theorem poll_eq (m : Machine τ) :
    ∃ bus timers cache, m.poll = { m with bus, timers, storage := { m.storage with cache } } ∧
      (cache = m.storage.cache ∨ cache = m.storage.cache.clearMarks) := by
  obtain ⟨bus, cache, h, hc⟩ := fires_eq { m with timers := (m.timers.drain m.clock).2 } m.due
  exact ⟨bus, _, cache, h, hc⟩

theorem setDuration_eq (m : Machine τ) (ms : τ) :
    ∃ bus stepDuration, m.perform (.setDuration ms) = { m with bus, stepDuration } := by
  unfold perform setDuration
  dsimp only
  split
  · exact ⟨m.bus, m.stepDuration, rfl⟩
  · exact ⟨{ m.bus with lifetime := BusLog.lifetimeFor ms }, ms, rfl⟩

/-- What is done between steps concerns times, the bus log and the marks of the cache. -/
theorem between_eq (m : Machine τ) {op : Op τ} (h : op.between = true) :
    ∃ stepDuration bus timers clock cache,
      m.perform op =
        { m with stepDuration, bus, timers, clock, storage := { m.storage with cache } } ∧
      (cache = m.storage.cache ∨ cache = m.storage.cache.clearMarks) := by
  cases op with
  | advance ms => exact ⟨m.stepDuration, m.bus, m.timers, m.clock + ms, m.storage.cache, rfl, .inl rfl⟩
  | setDuration ms =>
    obtain ⟨bus, stepDuration, he⟩ := m.setDuration_eq ms
    exact ⟨stepDuration, bus, m.timers, m.clock, m.storage.cache, he, .inl rfl⟩
  | poll =>
    obtain ⟨bus, timers, cache, he, hc⟩ := m.poll_eq
    exact ⟨m.stepDuration, bus, timers, m.clock, cache, he, hc⟩
  | _ => cases h

theorem still_between (m : Machine τ) {op : Op τ} (h : op.between = true) :
    m.storage.Still (m.perform op).storage := by
  obtain ⟨stepDuration, bus, timers, clock, cache, he, hc⟩ := m.between_eq h
  rw [he]
  rcases hc with rfl | rfl
  · exact .refl _
  · exact m.storage.still_clearMarks

/-! ## What a step can do -/

/-- A turn carries out the work of the stage, or fails with it. -/
theorem turn_eq_work (m : Machine τ) (i : Instruction) :
    (∃ f, m.work i = .error f ∧ m.turn i = .error f) ∨
    ∃ e log, m.work i = .ok e ∧ m.turn i = .ok ⟨m.carry i e, e.registerChanges, e.memoryChanges, log⟩ := by
  obtain ⟨blank, strict, stepDuration, storage, program, index, stage, pc, ir, phase, cycle, history, bus,
    timers, clock⟩ := m
  cases stage with
  | fetch => exact .inr ⟨_, _, rfl, rfl⟩
  | decode => exact .inr ⟨_, _, rfl, rfl⟩
  | store => exact .inr ⟨_, _, rfl, rfl⟩
  | execute =>
    unfold work turn execute
    dsimp only
    cases i.attempt strict storage cycle with
    | error f => exact .inl ⟨f, rfl, rfl⟩
    | ok a =>
      cases a with
      | done e => exact .inr ⟨e, _, rfl, rfl⟩
      | skipped x => exact .inr ⟨_, _, rfl, rfl⟩

/-- The program is over; or the stage fails, and only its cycle has passed; or its work is carried out
and recorded, and the machine proceeds if the instruction can be shown. -/
theorem step_cases (m : Machine τ) :
    (m.program[m.index]? = none ∧ m.step.outcome = .finished ∧ m.step.machine = { m with phase := .idle }) ∨
    (∃ i f, m.program[m.index]? = some i ∧ m.enter.work i = .error f ∧ m.step.outcome = .failed f ∧
      m.step.machine = m.enter) ∨
    (∃ i e text, m.program[m.index]? = some i ∧ m.enter.work i = .ok e ∧ i.assembly = .ok text ∧
      m.step.outcome = .stepped ∧ m.step.machine = (m.enter.recorded i e).proceed) ∨
    (∃ i e u, m.program[m.index]? = some i ∧ m.enter.work i = .ok e ∧ i.assembly = .error u ∧
      m.step.outcome = .failed (.misuse u) ∧ m.step.machine = m.enter.recorded i e) := by
  cases hp : m.program[m.index]? with
  | none =>
    have hs : m.step = ⟨.finished, { m with phase := .idle }, []⟩ := by
      unfold step
      rw [hp]
    exact .inl ⟨rfl, by rw [hs], by rw [hs]⟩
  | some i =>
    have hs : m.step = m.stepWith i := by
      unfold step
      rw [hp]
    rw [hs]
    unfold stepWith
    refine .inr ?_
    rcases m.enter.turn_eq_work i with ⟨f, hw, ht⟩ | ⟨e, log, hw, ht⟩
    · rw [ht]
      exact .inl ⟨i, f, rfl, hw, rfl, rfl⟩
    · rw [ht]
      refine .inr ?_
      -- the record of the turn takes cycle and stage from the machine after it, which kept both
      have hr : ({ m.enter.carry i e with
          history := (m.enter.carry i e).history ++ [Turn.record ⟨m.enter.carry i e, e.registerChanges,
            e.memoryChanges, log⟩ i] } : Machine τ) = m.enter.recorded i e := by
        obtain ⟨bus, timers, hc⟩ := m.enter.carry_eq i e
        unfold recorded entry Turn.record
        simp only [hc]
      unfold Turn.conclude
      simp only [hr]
      cases ha : i.assembly with
      | ok text => exact .inl ⟨i, e, text, rfl, hw, ha, rfl, rfl⟩
      | error u => exact .inr ⟨i, e, u, rfl, hw, ha, rfl, rfl⟩

theorem step_of_none {m : Machine τ} (hi : m.program[m.index]? = none) :
    m.step.outcome = .finished ∧ m.step.machine = { m with phase := .idle } := by
  rcases m.step_cases with ⟨-, ho, hs⟩ | ⟨i', f', hi', -⟩ | ⟨i', e', text, hi', -⟩ | ⟨i', e', u, hi', -⟩
  · exact ⟨ho, hs⟩
  · rw [hi] at hi'; cases hi'
  · rw [hi] at hi'; cases hi'
  · rw [hi] at hi'; cases hi'

theorem step_of_error {m : Machine τ} {i : Instruction} {f : Failure} (hi : m.program[m.index]? = some i)
    (hw : m.enter.work i = .error f) : m.step.outcome = .failed f ∧ m.step.machine = m.enter := by
  rcases m.step_cases with ⟨hi', -⟩ | ⟨i', f', hi', hw', ho, hs⟩ | ⟨i', e', text, hi', hw', -⟩ |
    ⟨i', e', u, hi', hw', -⟩
  · rw [hi] at hi'; cases hi'
  · rw [hi] at hi'; cases hi'; rw [hw] at hw'; cases hw'; exact ⟨ho, hs⟩
  · rw [hi] at hi'; cases hi'; rw [hw] at hw'; cases hw'
  · rw [hi] at hi'; cases hi'; rw [hw] at hw'; cases hw'

theorem step_of_ok {m : Machine τ} {i : Instruction} {e : Effect} (hi : m.program[m.index]? = some i)
    (hw : m.enter.work i = .ok e) :
    (∃ text, i.assembly = .ok text ∧ m.step.outcome = .stepped ∧
      m.step.machine = (m.enter.recorded i e).proceed) ∨
    ∃ u, i.assembly = .error u ∧ m.step.outcome = .failed (.misuse u) ∧
      m.step.machine = m.enter.recorded i e := by
  rcases m.step_cases with ⟨hi', -⟩ | ⟨i', f', hi', hw', -⟩ | ⟨i', e', text, hi', hw', ha, ho, hs⟩ |
    ⟨i', e', u, hi', hw', ha, ho, hs⟩
  · rw [hi] at hi'; cases hi'
  · rw [hi] at hi'; cases hi'; rw [hw] at hw'; cases hw'
  · rw [hi] at hi'; cases hi'; rw [hw] at hw'; cases hw'; exact .inl ⟨text, ha, ho, hs⟩
  · rw [hi] at hi'; cases hi'; rw [hw] at hw'; cases hw'; exact .inr ⟨u, ha, ho, hs⟩

/-- The machine after a step, however the step ends: idle, in the next cycle only, or with the work of
the stage carried out and recorded, be it before the same stage or the next. -/
theorem step_machine (m : Machine τ) :
    (m.program[m.index]? = none ∧ m.step.machine = { m with phase := .idle }) ∨
    (∃ i f, m.program[m.index]? = some i ∧ m.enter.work i = .error f ∧ m.step.machine = m.enter) ∨
    ∃ i e index stage bus timers, m.program[m.index]? = some i ∧ m.enter.work i = .ok e ∧
      m.step.machine =
        { m.enter with
          storage := e.storage, pc := m.enter.pcAfter, ir := m.enter.irAfter i
          history := m.history ++ [m.enter.entry i e], index, stage, bus, timers } := by
  rcases m.step_cases with ⟨hi, -, h⟩ | ⟨i, f, hi, hw, -, h⟩ | ⟨i, e, text, hi, hw, -, -, h⟩ |
    ⟨i, e, u, hi, hw, -, -, h⟩
  · exact .inl ⟨hi, h⟩
  · exact .inr (.inl ⟨i, f, hi, hw, h⟩)
  · obtain ⟨index, stage, hp⟩ := (m.enter.recorded i e).proceed_eq
    obtain ⟨bus, timers, hr⟩ := m.enter.recorded_eq i e
    rw [hp, hr] at h
    exact .inr (.inr ⟨i, e, index, stage, bus, timers, hi, hw, h⟩)
  · obtain ⟨bus, timers, hr⟩ := m.enter.recorded_eq i e
    rw [hr] at h
    exact .inr (.inr ⟨i, e, m.index, m.stage, bus, timers, hi, hw, h⟩)

/-! ## What no operation changes -/

/-- What a machine was made with stays, and so does the program until the history starts over. -/
theorem perform_fixed (m : Machine τ) (op : Op τ) :
    (m.perform op).blank = m.blank ∧ (m.perform op).strict = m.strict ∧
      (op.restarts = false → (m.perform op).program = m.program) := by
  by_cases ho : op.restarts = true
  · rw [ho]
    cases op with
    | load program => exact ⟨rfl, rfl, fun hn => by cases hn⟩
    | reset => exact ⟨rfl, rfl, fun hn => by cases hn⟩
    | _ => cases ho
  · rcases Op.step_or_between (Bool.eq_false_iff.2 ho) with rfl | hb
    · unfold perform
      rcases m.step_machine with ⟨-, h⟩ | ⟨i, f, -, -, h⟩ | ⟨i, e, index, stage, bus, timers, -, -, h⟩
      · rw [h]; exact ⟨rfl, rfl, fun _ => rfl⟩
      · rw [h]; exact ⟨rfl, rfl, fun _ => rfl⟩
      · rw [h]; exact ⟨rfl, rfl, fun _ => rfl⟩
    · obtain ⟨stepDuration, bus, timers, clock, cache, he, -⟩ := m.between_eq hb
      rw [he]
      exact ⟨rfl, rfl, fun _ => rfl⟩

theorem blank_perform (m : Machine τ) (op : Op τ) : (m.perform op).blank = m.blank :=
  (m.perform_fixed op).1

theorem blank_after (m : Machine τ) (ops : List (Op τ)) : (m.after ops).blank = m.blank :=
  after_of_perform (P := fun n => n.blank = m.blank)
    (fun n op hn (_ : True) => (n.blank_perform op).trans hn) rfl fun _ _ => trivial

theorem strict_perform (m : Machine τ) (op : Op τ) : (m.perform op).strict = m.strict :=
  (m.perform_fixed op).2.1

theorem program_perform (m : Machine τ) {op : Op τ} (ho : op.restarts = false) :
    (m.perform op).program = m.program :=
  (m.perform_fixed op).2.2 ho

/-! ## A small machine -/

/-- One general register, four cells, two lines in the first level of the cache and one in each other;
times are exact. -/
def Setup.small (demoteVictims strict : Bool) : Setup Rat :=
  {
    registers := [("R1", "General"), ("PC", "Program counter"), ("IR", "Instruction register")]
    memorySize := 4, cacheSizes := [2, 1, 1], demoteVictims, strict, stepDuration := 1000
  }

theorem eq_ok_get {ε α : Type} {x : Except ε α} (h : x.toOption.isSome = true) :
    x = .ok (x.toOption.get h) := by
  cases x with
  | error e => cases h
  | ok a => rfl

theorem isSome_small (demoteVictims strict : Bool) :
    (ofSetup (.small demoteVictims strict) 0).toOption.isSome = true := by
  cases demoteVictims <;> cases strict <;> decide +kernel

def small (demoteVictims strict : Bool) : Machine Rat :=
  (ofSetup (.small demoteVictims strict) 0).toOption.get (isSome_small demoteVictims strict)

theorem ofSetup_small (demoteVictims strict : Bool) :
    ofSetup (.small demoteVictims strict) 0 = .ok (small demoteVictims strict) :=
  eq_ok_get (isSome_small demoteVictims strict)

theorem reachable_small (demoteVictims strict : Bool) : Reachable (small demoteVictims strict) :=
  .made (ofSetup_small demoteVictims strict)

/-- Three addresses are accessed with two lines in the first level, so the line that was stored first
moves down. -/
def demotingRun : List (Op Rat) :=
  .load [{ opcode := .mov, operand1 := some (.literal 7), destination := .given "R1" },
      { opcode := .store, destination := .given "R1", address := .given 2 },
      { opcode := .load, destination := .given "R1", address := .given 3 },
      { opcode := .load, destination := .given "R1", address := .given 0 }]
    :: List.replicate 16 .step

end PhaseMachine.Machine
