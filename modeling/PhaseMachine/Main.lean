/-
The command line: reads the configuration file, prints the trace and exits with its code.
-/
import PhaseMachine.CommandLine.Trace

namespace PhaseMachine.CommandLine

def usageText : String :=
  "usage: phase-machine [-h] [--steps N] [--listing assembly|machine] [--strict]\n"
    ++ "                     [--log-level DEBUG|INFO|WARNING|ERROR] config"

def contentOf (file : String) : IO (Option String) := do
  try
    return some (Text.kept (← IO.FS.readFile file))
  catch _ =>
    return none

def Abort.message : Abort → String
  | unreadable r => r.message
  | configuration f => if f.message = "" then "the configuration has the wrong shape" else f.message
  | blankSetting => "a setting was left blank"
  | misuse m => if m.message = "" then "an instruction has a field of the wrong kind" else m.message

def Usage.print : Usage → IO Unit
  | help => IO.println usageText
  | wrong => IO.eprintln usageText

def Output.print (o : Output) : IO Unit := do
  o.out.forM fun line => IO.println (Text.shown line)
  o.err.forM fun line => IO.eprintln (Text.shown line)

end PhaseMachine.CommandLine

open PhaseMachine.CommandLine in
def main (arguments : List String) : IO UInt32 := do
  match Invocation.parse arguments with
  | .error u =>
    u.print
    return u.exitCode.toUInt32
  | .ok i => match trace i (← contentOf i.file) with
    | .ok o =>
      o.print
      return o.exitCode.toUInt32
    | .error a =>
      IO.eprintln (errorLine a.message)
      return 1
