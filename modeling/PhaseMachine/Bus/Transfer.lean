/-
What travels on the buses, a value from one part of the machine to another, and the bus log: the transfers
of signals in order, numbered from one. A transfer is active until the timer that was set for it goes off.
-/
import PhaseMachine.Number.Quantity

namespace PhaseMachine

/-! ## Signals -/

inductive Bus where
  | data | address | control
deriving DecidableEq, Repr

namespace Bus

def all : List Bus :=
  [data, address, control]

def name : Bus → String
  | data => "DATA"
  | address => "ADDRESS"
  | control => "CONTROL"

def ofName? (s : String) : Option Bus :=
  all.find? fun b => b.name == s

end Bus

/-- A value on its way over a bus. Source and destination are registers, cache levels or named
units. -/
structure Signal where
  bus : Bus
  source : String
  destination : String
  value : Int
deriving DecidableEq, Repr

/-! ## The log -/

/-- A signal that was sent at a time. -/
structure Transfer (τ : Type) where
  number : Nat
  signal : Signal
  active : Bool
  timestamp : τ
deriving Repr

namespace Transfer

variable {τ : Type}

def id (t : Transfer τ) : String :=
  s!"transfer-{t.number}"

/-- The transfer after the timer for a number has gone off. -/
def expire (number : Nat) (t : Transfer τ) : Transfer τ :=
  if t.number = number then { t with active := false } else t

end Transfer

/-- The transfers, the number of the next one, and how long it will be active. -/
structure BusLog (τ : Type) where
  transfers : List (Transfer τ) := []
  nextNumber : Nat := 1
  lifetime : τ
deriving Repr

namespace BusLog

variable {τ : Type}

/-- The lifetime of transfers while steps take a time: half a second more than a step, and at least
half a second. -/
def lifetimeFor [Quantity τ] (stepDuration : τ) : τ :=
  Quantity.atLeast (Quantity.ofInt 500) (stepDuration + Quantity.ofInt 500)

/-- The lifetime for steps of one second. -/
def defaultLifetime [Quantity τ] : τ :=
  lifetimeFor (Quantity.ofInt 1000)

def newTransfer (log : BusLog τ) (now : τ) (signal : Signal) : Transfer τ :=
  { number := log.nextNumber, signal, active := true, timestamp := now }

def record (log : BusLog τ) (now : τ) (signal : Signal) : BusLog τ :=
  { log with
    transfers := log.transfers ++ [log.newTransfer now signal]
    nextNumber := log.nextNumber + 1 }

def deactivate (log : BusLog τ) (number : Nat) : BusLog τ :=
  { log with transfers := log.transfers.map (Transfer.expire number) }

def active (log : BusLog τ) : List (Transfer τ) :=
  log.transfers.filter (·.active)

/-- Forgets the transfers. Numbers go on. -/
def drain (log : BusLog τ) : BusLog τ :=
  { log with transfers := [] }

/-- Forgets the transfers and starts numbers over. -/
def clear (log : BusLog τ) : BusLog τ :=
  { log with transfers := [], nextNumber := 1 }

end BusLog

end PhaseMachine
