/-
The machine: storage, a loaded program and how far it has come, the history since loading, and for
display the bus log with its timers. Times are readings of a clock that is moved from outside.
-/
import PhaseMachine.Bus.Transfer
import PhaseMachine.History.Record
import PhaseMachine.Scheduler.Basic
import PhaseMachine.Storage.Memory

namespace PhaseMachine

/-- What a timer of the machine does: it ends a transfer, or clears the marks of the cache. -/
inductive Timer where
  | expire (number : Nat)
  | clearMarks
deriving DecidableEq, Repr

structure Machine (τ : Type) where
  /-- Storage as it was made, which a reset restores. -/
  blank : Storage
  /-- Whether a malformed instruction stops the machine. -/
  strict : Bool
  stepDuration : τ
  storage : Storage
  program : Program := []
  /-- The place of the current instruction in the program. -/
  index : Nat := 0
  /-- The stage that comes next. -/
  stage : Stage := .fetch
  /-- How many instructions were fetched. -/
  pc : Nat := 0
  /-- The instruction fetched last. -/
  ir : Option Instruction := none
  phase : Phase := .idle
  cycle : Nat := 0
  history : List Record := []
  bus : BusLog τ
  timers : Scheduler τ Timer := {}
  clock : τ

namespace Machine

/-! ## Making a machine -/

/-- What a machine is made from. -/
structure Setup (τ : Type) where
  registers : List (String × String) := RegisterBank.defaultSpecs
  memorySize : Int := Memory.defaultSize
  cacheSizes : List Int := Cache.Hierarchy.defaultSizes
  demoteVictims : Bool := false
  strict : Bool := false
  stepDuration : τ

inductive Refusal where
  | registerMissing (name : String)
  | negativeDuration
  | duplicateRegister (name : String)
  | memorySize
  | cacheSizes (r : Cache.SizeRefusal)
deriving DecidableEq, Repr

def Refusal.message : Refusal → String
  | registerMissing name => s!"Register set must include {name}."
  | negativeDuration => "Step duration must not be negative."
  | duplicateRegister name => s!"Duplicate register name: {name}"
  | memorySize => "Memory size must be a positive integer."
  | cacheSizes r => r.message

variable {τ : Type} [Quantity τ]

/-- The steps of a machine take a second unless told otherwise. -/
def defaultDuration : τ :=
  Quantity.ofInt 1000

def Setup.blank (s : Setup τ) : Except Refusal Storage := do
  let registers ← (RegisterBank.ofSpecs s.registers).mapError .duplicateRegister
  let memory ← match Memory.ofSize? s.memorySize with
    | some m => .ok m
    | none => .error .memorySize
  let cache ← (Cache.Hierarchy.ofSizes s.cacheSizes s.demoteVictims).mapError .cacheSizes
  return { registers, memory, cache }

/-- The control register that the setup lacks. -/
def Setup.missing? (s : Setup τ) : Option String :=
  RegisterBank.controlNames.find? fun name => !(s.registers.map (·.1)).contains name

/-- The machine of a setup at a clock reading. Registers and duration are checked first, then the
parts of storage in order. -/
def ofSetup (s : Setup τ) (clock : τ) : Except Refusal (Machine τ) :=
  match s.missing? with
  | some name => .error (.registerMissing name)
  | none =>
    if s.stepDuration < Quantity.zero then .error .negativeDuration
    else s.blank.map fun blank =>
      {
        blank, strict := s.strict, stepDuration := s.stepDuration, storage := blank
        bus := { lifetime := BusLog.lifetimeFor s.stepDuration }
        clock
      }

/-! ## Where the machine is -/

omit [Quantity τ] in
def isFinished (m : Machine τ) : Bool :=
  m.program.length ≤ m.index

/-- The phase of the next step, idle after the end of the program. -/
def nextPhase (m : Machine τ) : Phase :=
  if m.isFinished then .idle else .at m.stage

/-! ## Loading and resetting -/

/-- The machine at the start of a program. The values of registers and memory stay, and so does the
cache; memory forgets its flags, and timers of before never go off. -/
def load (m : Machine τ) (program : Program) : Machine τ :=
  { m with
    storage := { m.storage with
      registers := (m.storage.registers.setActive "PC" false).setActive "IR" false
      memory := m.storage.memory.clearFlags }
    program, index := 0, stage := .fetch, pc := 0, ir := none, phase := .idle, cycle := 0
    history := []
    bus := m.bus.clear
    timers := m.timers.advanceEpoch }

def loadLog (m : Machine τ) (program : Program) : List Event :=
  m.timers.epochLog ++ [.loaded program.length]

/-- The machine without a program, its storage as it was made. -/
def reset (m : Machine τ) : Machine τ :=
  { m with
    storage := m.blank
    program := [], index := 0, stage := .fetch, pc := 0, ir := none, phase := .idle, cycle := 0
    history := []
    bus := m.bus.clear
    timers := m.timers.advanceEpoch }

def resetLog (m : Machine τ) : List Event :=
  m.timers.epochLog

/-! ## Time -/

def advance (m : Machine τ) (ms : τ) : Machine τ :=
  { m with clock := m.clock + ms }

/-- Sets the duration of steps, and with it the lifetime of later transfers. -/
def setDuration (m : Machine τ) (ms : τ) : Except Refusal (Machine τ) :=
  if ms < Quantity.zero then .error .negativeDuration
  else .ok { m with stepDuration := ms, bus := { m.bus with lifetime := BusLog.lifetimeFor ms } }

def defer (m : Machine τ) (delay : τ) (timer : Timer) : Machine τ :=
  { m with timers := m.timers.schedule m.clock delay timer }

def fire (m : Machine τ) : Timer → Machine τ
  | .expire number => { m with bus := m.bus.deactivate number }
  | .clearMarks => { m with storage := { m.storage with cache := m.storage.cache.clearMarks } }

def due (m : Machine τ) : List (Task τ Timer) :=
  (m.timers.drain m.clock).1

def poll (m : Machine τ) : Machine τ :=
  m.due.foldl (fun m t => m.fire t.payload) { m with timers := (m.timers.drain m.clock).2 }

end Machine

end PhaseMachine
