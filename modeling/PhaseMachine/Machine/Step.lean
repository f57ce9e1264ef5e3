/-
Steps of the machine. A step carries out the next stage of the current instruction and adds a record
to the history. In the execute stage a malformed instruction is passed over, or stops a strict
machine before the stage.
-/
import PhaseMachine.Execution.Effect
import PhaseMachine.Machine.Basic

namespace PhaseMachine.Machine

/-- How a step ends: the program was over, the stage was carried out, or the instruction stopped
it. -/
inductive Outcome where
  | finished
  | stepped
  | failed (f : Failure)
deriving DecidableEq, Repr

/-- A step: how it ends, the machine after it, and what it reports. -/
structure Step (τ : Type) where
  outcome : Outcome
  machine : Machine τ
  log : List Event := []

variable {τ : Type} [Quantity τ]

def send (m : Machine τ) (signal : Signal) : Machine τ :=
  -- the transfer is active for the lifetime of the bus log
  { m with bus := m.bus.record m.clock signal }.defer m.bus.lifetime (.expire m.bus.nextNumber)

def sendAll (m : Machine τ) (signals : List Signal) : Machine τ :=
  signals.foldl send m

/-! ## Stages -/

/-- What a stage does: the machine after it, changes of values, and what it reports. -/
structure Turn (τ : Type) where
  machine : Machine τ
  registerChanges : List RegisterChange := []
  memoryChanges : List MemoryChange := []
  log : List Event := []

/-- The signals of a fetch: the address goes to memory, and the instruction comes back. -/
def fetchSignals (pc : Nat) : List Signal :=
  [⟨.address, "PC", "Memory", pc⟩, ⟨.data, "Memory", "IR", 0⟩]

/-- Takes the instruction in and moves the program counter on. -/
def fetch (m : Machine τ) (i : Instruction) : Turn τ :=
  let pc := m.pc + 1
  let fetched := { m with
    ir := some i, pc
    storage := { m.storage with registers := m.storage.registers.write "PC" pc } }
  {
    machine := fetched.sendAll (fetchSignals pc)
    registerChanges := [⟨"PC", (m.storage.registers.value? "PC").getD 0, pc⟩]
    log := (fetchSignals pc).map Event.transferred
  }

def decode (m : Machine τ) : Turn τ :=
  {
    machine := { m with
      storage := { m.storage with registers := m.storage.registers.setActive "IR" true } }
  }

/-- The turn of an attempt at the instruction. -/
def attempted (m : Machine τ) (i : Instruction) (a : Attempt) : Turn τ :=
  match a with
  | .done e => {
      machine := { m with storage := e.storage }.sendAll e.signals
      registerChanges := e.registerChanges
      memoryChanges := e.memoryChanges
      log := i.attemptLog a }
  | .skipped _ => { machine := m, log := i.attemptLog a }

def execute (m : Machine τ) (i : Instruction) : Except Failure (Turn τ) :=
  (i.attempt m.strict m.storage m.cycle).map (m.attempted i)

/-- Shows general registers and memory as inactive, and sets the timer that clears the marks of the
cache. -/
def store (m : Machine τ) : Turn τ :=
  let shown := { m with
    storage := { m.storage with
      registers := m.storage.registers.deactivateGeneral
      memory := m.storage.memory.deactivateAll } }
  { machine := shown.defer m.stepDuration .clearMarks }

def turn (m : Machine τ) (i : Instruction) : Except Failure (Turn τ) :=
  match m.stage with
  | .fetch => .ok (m.fetch i)
  | .decode => .ok m.decode
  | .execute => m.execute i
  | .store => .ok m.store

/-! ## Steps -/

/-- The machine in the phase of its next stage, one cycle later. -/
def enter (m : Machine τ) : Machine τ :=
  { m with phase := .at m.stage, cycle := m.cycle + 1 }

/-- The machine before the stage after the one just carried out. -/
def proceed (m : Machine τ) : Machine τ :=
  match m.stage.next? with
  | some stage => { m with stage }
  | none => { m with stage := .fetch, index := m.index + 1 }

def Turn.record (t : Turn τ) (i : Instruction) : Record :=
  {
    cycle := t.machine.cycle, stage := t.machine.stage, instruction := i
    registerChanges := t.registerChanges, memoryChanges := t.memoryChanges
  }

/-- Ends a turn: the history gains a record and the machine goes on to the next stage. -/
def Turn.conclude (t : Turn τ) (i : Instruction) : Step τ :=
  let recorded := { t.machine with history := t.machine.history ++ [t.record i] }
  match i.assembly with
  | .ok assembly =>
    ⟨.stepped, recorded.proceed, t.log ++ [.stepped t.machine.cycle t.machine.stage assembly]⟩
  -- what cannot be shown in assembly keeps the machine at its stage
  | .error u => ⟨.failed (.misuse u), recorded, t.log⟩

/-- The step with the current instruction. -/
def stepWith (m : Machine τ) (i : Instruction) : Step τ :=
  match m.enter.turn i with
  | .ok t => t.conclude i
  | .error f => ⟨.failed f, m.enter, []⟩

def step (m : Machine τ) : Step τ :=
  match m.program[m.index]? with
  | some i => m.stepWith i
  -- after the end of the program nothing changes but the phase
  | none => ⟨.finished, { m with phase := .idle }, []⟩

end PhaseMachine.Machine
