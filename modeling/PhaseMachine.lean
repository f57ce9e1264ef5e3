import PhaseMachine.Bus.Timed
import PhaseMachine.Debugger.Run
import PhaseMachine.Game.Engine
import PhaseMachine.Machine.Snapshot
import PhaseMachine.Main
import PhaseMachine.Scheduler.Script
import PhaseMachine.Proofs.Cache.Access
import PhaseMachine.Proofs.Cache.Coherence
import PhaseMachine.Proofs.Execution.Action
import PhaseMachine.Proofs.Storage.Passing
import PhaseMachine.Proofs.Execution.Effect
import PhaseMachine.Proofs.Machine.Life
import PhaseMachine.Proofs.Machine.Soundness
import PhaseMachine.Proofs.Flat.Instruction
import PhaseMachine.Proofs.Flat.Refinement
import PhaseMachine.Proofs.Machine.Coherence
import PhaseMachine.Proofs.Machine.DeltaLog
import PhaseMachine.Proofs.Machine.Recency
import PhaseMachine.Proofs.Scheduler.Renumber
import PhaseMachine.Proofs.Machine.Twin
import PhaseMachine.Proofs.Machine.Reset
import PhaseMachine.Proofs.Scheduler.HeapOrder
import PhaseMachine.Proofs.Scheduler.Order
import PhaseMachine.Proofs.Scheduler.Account
import PhaseMachine.Proofs.Scheduler.Safety
import PhaseMachine.Proofs.Scheduler.Poll
import PhaseMachine.Proofs.Game.Kernel
import PhaseMachine.Proofs.Execution.Complete
import PhaseMachine.Proofs.Machine.Stall
import PhaseMachine.Proofs.Machine.Pace
import PhaseMachine.Proofs.Machine.Trace
import PhaseMachine.Proofs.Machine.Strictness
import PhaseMachine.Proofs.Machine.Steps
import PhaseMachine.Proofs.Debugger.Conditions
import PhaseMachine.Proofs.Debugger.Run
import PhaseMachine.Proofs.Scheduler.Drain
import PhaseMachine.Proofs.Machine.Lifetime
import PhaseMachine.Proofs.Flat.Program
import PhaseMachine.Proofs.Samples.Loading
import PhaseMachine.Proofs.Samples.Calculator
import PhaseMachine.Proofs.Samples.TrafficLight
import PhaseMachine.Proofs.Config.Running
import PhaseMachine.Proofs.Cache.Demotion
import PhaseMachine.Proofs.Cache.Stack
import PhaseMachine.Proofs.Machine.Atomic
import PhaseMachine.Proofs.Machine.Clock
import PhaseMachine.Proofs.Cache.Retention
import PhaseMachine.Proofs.Cache.Inclusion
import PhaseMachine.Proofs.Debugger.Chunks
import PhaseMachine.Proofs.Debugger.Calls
import PhaseMachine.Proofs.Debugger.Edits
import PhaseMachine.Proofs.Bus.Expiry
import PhaseMachine.Proofs.Game.Ending
import PhaseMachine.Proofs.Machine.Reload
import PhaseMachine.Proofs.Numeral.Spelling
import PhaseMachine.Proofs.Instruction.Parsing
import PhaseMachine.Proofs.Instruction.Encoding
import PhaseMachine.Proofs.Machine.Flags
import PhaseMachine.Proofs.Machine.Signals
import PhaseMachine.Proofs.Numeral.Reading
import PhaseMachine.Proofs.Instruction.Denotation
import PhaseMachine.Proofs.Machine.Remainder
import PhaseMachine.Proofs.Machine.Legible
import PhaseMachine.Proofs.Debugger.Instructions
