/-
The log: what the parts of the program report while they work, each event with its severity, the
name of the component that reports it and a message.
-/
import PhaseMachine.Bus.Transfer
import PhaseMachine.Cache.Hierarchy
import PhaseMachine.Execution.Malformed
import PhaseMachine.Execution.Phase

namespace PhaseMachine

inductive Severity where
  | debug | info | warning | error
deriving DecidableEq, Repr

namespace Severity

def all : List Severity :=
  [debug, info, warning, error]

def name : Severity → String
  | debug => "DEBUG"
  | info => "INFO"
  | warning => "WARNING"
  | error => "ERROR"

def ofName? (s : String) : Option Severity :=
  all.find? fun v => v.name == s

def rank : Severity → Nat
  | debug => 0
  | info => 1
  | warning => 2
  | error => 3

end Severity

inductive Event where
  /-- A valid line makes way in the first level of the cache. -/
  | evicted (line : Cache.Line)
  /-- Leaving an epoch drops the tasks in the queue. -/
  | dropped (count epoch : Nat)
  | transferred (signal : Signal)
  /-- A malformed instruction is passed over. -/
  | skipped (m : Malformed)
  /-- An instruction without effect is executed. -/
  | ineffective (opcode : Opcode)
  | loaded (count : Nat)
  | stepped (cycle : Nat) (stage : Stage) (assembly : String)
  | stoppedBefore (index : Nat)
  | stoppedAt (cycle : Nat) (stage : Stage)
  | finished (phases : Nat)
  | rejected (error : String)
  | exhausted (cycle : Nat)
  | built (count : Nat)
deriving DecidableEq, Repr

namespace Event

def severity : Event → Severity
  | skipped _ => .warning
  | stoppedBefore _ | stoppedAt _ _ | finished _ | rejected _ | exhausted _ => .info
  | _ => .debug

def component : Event → String
  | evicted _ => "cpu_cycle_tracer.core.cache"
  | dropped _ _ => "cpu_cycle_tracer.core.scheduler"
  | transferred _ => "cpu_cycle_tracer.transport.bus"
  | skipped _ => "cpu_cycle_tracer.arch.teaching.instructions"
  | ineffective _ => "cpu_cycle_tracer.arch.teaching.instructions.control"
  | loaded _ | stepped _ _ _ => "cpu_cycle_tracer.core.cpu"
  | stoppedBefore _ | stoppedAt _ _ | finished _ => "cpu_cycle_tracer.debugger.debugger"
  | rejected _ | exhausted _ => "cpu_cycle_tracer.game.engine"
  | built _ => "cpu_cycle_tracer.config.builder"

def message : Event → String
  | evicted line =>
    s!"L1 evicts 0x{Text.hex 4 line.address} (last accessed at cycle {line.lastAccessed})"
  | dropped count epoch => s!"Dropped {count} pending deferred task(s) at epoch {epoch}"
  | transferred s => s!"{s.bus.name} bus: {s.source} -> {s.destination} ({s.value})"
  | skipped m => s!"Skipped instruction: {m.message}"
  | ineffective opcode => s!"{opcode.name} has no execute semantics; treated as no-op"
  | loaded count => s!"Loaded program with {count} instruction(s)"
  | stepped cycle stage assembly => s!"cycle {cycle}: {stage.name} {assembly}"
  | stoppedBefore index => s!"Breakpoint hit before instruction {index}"
  | stoppedAt cycle stage => s!"Breakpoint hit at cycle {cycle} ({stage.name})"
  | finished phases => s!"Program finished after {phases} phase(s)"
  | rejected error => s!"Action rejected: {error}"
  | exhausted cycle => s!"Energy depleted at cycle {cycle}"
  | built count => s!"Built program with {count} instruction(s)"

def brief (e : Event) : String :=
  s!"{e.severity.name} {e.message}"

def line (e : Event) : String :=
  s!"{e.severity.name} {e.component}: {e.message}"

end Event

def Severity.kept (least : Severity) (events : List Event) : List Event :=
  events.filter fun e => least.rank ≤ e.severity.rank

end PhaseMachine
