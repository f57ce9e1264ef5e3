/-
The trace of a configured machine, as the command line prints it: a listing of the program, a line
for each phase, and a summary of registers, memory and cache. The log and the error that ends a trace
are kept apart from it.
-/
import PhaseMachine.CommandLine.Invocation
import PhaseMachine.Config.Building
import PhaseMachine.Instruction.Encoding
import PhaseMachine.Machine.Run
import PhaseMachine.Yaml.Document

namespace PhaseMachine.CommandLine

/-- Lines of output, lines of log and errors, and the exit code. -/
structure Output where
  out : List String := []
  err : List String := []
  exitCode : Nat
deriving DecidableEq, Repr

/-- Why there is no trace: the text cannot be read, or fails in a way that no message is made for, or
a setting is asked for that was left blank. -/
inductive Abort where
  | unreadable (r : Yaml.Refusal)
  | configuration (f : Config.Failure)
  | misuse (m : Misuse)
  | blankSetting

/-- What a setting is, as soon as it is asked for. -/
def Setting.get {α : Type} : Setting α → Except Abort α
  | chosen a => .ok a
  | blank => .error .blankSetting

def errorLine (message : String) : String :=
  s!"error: {message}"

def missingFile (file : String) : String :=
  s!"[Errno 2] No such file or directory: {Text.quoted file}"

def noProgram : String :=
  "configuration does not define a program"

/-! ## Parts of a trace -/

def listingText (mode : ListingMode) (l : ListingLine) : String :=
  let shown := match mode with
    | .assembly => l.mnemonic
    | .machine => l.bytes
  s!"{Text.padLeft 3 (toString l.index)}: {shown}"

/-- The memory in use, nothing if there is none. -/
def memorySummary (m : Memory) : List String :=
  match m.usedAddresses with
  | [] => []
  | used =>
    let cells := used.map fun (a : Nat) => s!"{Instruction.addressText a}={m.peek a}"
    [s!"memory: {Value.separated cells}"]

/-- Registers, memory and the counters of the cache. Every value here was shown by the line of the
phase that set it, so it can be written. -/
def summary (s : Storage) : List String :=
  let registers := s.registers.toMap.map fun r => s!"{r.1}={r.2}"
  s!"registers: {Value.separated registers}"
    :: memorySummary s.memory ++ s.cache.statistics.map fun line => s!"cache {line}"

/-! ## Traces -/

/-- The machine that a text configures. Settings can make it strict. No timer goes off during a
trace, so the clock stands still. -/
def buildStrict (t : Settings) (v : Value) : Except Config.Failure Config.Built := do
  let system ← Config.readSystem v
  Config.build { system with setup.strict := t.strict || system.setup.strict } 0.0

/-- The trace of a machine with its program loaded. -/
def traceBuilt (t : Settings) (least : Severity) (b : Config.Built) : Except Abort Output :=
  let logged (events : List Event) := (least.kept events).map Event.line
  if b.machine.program.isEmpty then
    .ok { err := logged b.log ++ [errorLine noProgram], exitCode := 2 }
  else do
    let lines ← (listing b.machine.program).mapError .misuse
    let r := b.machine.run (← t.steps.get)
    let phases ← (r.machine.history.mapM Record.line).mapError .misuse
    let out := lines.map (listingText t.listing) ++ "" :: phases
    let err := logged (b.log ++ r.log)
    match r.failure? with
    | none => return { out := out ++ "" :: summary r.machine.storage, err, exitCode := 0 }
    | some (.malformed m) => return { out, err := err ++ [errorLine m.message], exitCode := 1 }
    | some (.misuse u) => throw (.misuse u)

/-- The trace of the machine that the content of a file configures. -/
def traceContent (t : Settings) (least : Severity) (content : String) : Except Abort Output := do
  let v ← (Yaml.read content).mapError .unreadable
  match buildStrict t v with
  | .ok b => traceBuilt t least b
  | .error (.refused r) => return { err := [errorLine r.message], exitCode := 2 }
  | .error f => throw (.configuration f)

/-- The trace that is asked for, if the file has some content. -/
def trace (i : Invocation) (content? : Option String) : Except Abort Output := do
  let least ← i.settings.logLevel.get
  match content? with
  | none => return { err := [errorLine (missingFile i.file)], exitCode := 2 }
  | some content => traceContent i.settings least content

end PhaseMachine.CommandLine
