/-
A bus log with its timers: each transfer is recorded together with a task that makes it inactive at
the end of its lifetime.
-/
import PhaseMachine.Bus.Transfer
import PhaseMachine.Scheduler.Basic

namespace PhaseMachine

/-- A bus log and the tasks that end the transfers of given numbers. -/
structure TimedBus (τ : Type) where
  log : BusLog τ
  timers : Scheduler τ Nat := {}
  clock : τ

namespace TimedBus

variable {τ : Type} [Quantity τ]

/-- Sends a signal. Without a lifetime of its own the transfer has that of the log. -/
def send (b : TimedBus τ) (signal : Signal) (lifetime : Option τ) : TimedBus τ :=
  { b with
    log := b.log.record b.clock signal
    timers := b.timers.schedule b.clock (lifetime.getD b.log.lifetime) b.log.nextNumber }

def advance (b : TimedBus τ) (ms : τ) : TimedBus τ :=
  { b with clock := b.clock + ms }

def setLifetime (b : TimedBus τ) (lifetime : τ) : TimedBus τ :=
  { b with log := { b.log with lifetime } }

def drain (b : TimedBus τ) : TimedBus τ :=
  { b with log := b.log.drain }

def clear (b : TimedBus τ) : TimedBus τ :=
  { b with log := b.log.clear }

def advanceEpoch (b : TimedBus τ) : TimedBus τ :=
  { b with timers := b.timers.advanceEpoch }

def due (b : TimedBus τ) : List (Task τ Nat) :=
  (b.timers.drain b.clock).1

def poll (b : TimedBus τ) : TimedBus τ :=
  { b with
    log := b.due.foldl (fun log t => log.deactivate t.payload) b.log
    timers := (b.timers.drain b.clock).2 }

end TimedBus

end PhaseMachine
