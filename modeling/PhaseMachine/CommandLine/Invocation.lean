/-
Invocations: what the arguments of the command line ask for, a configuration file and settings. Of an
option that comes more than once the last one counts. Help is given as soon as it is asked for; a
file too many or an unknown option is a mistake that shows after everything else was read.
-/
import PhaseMachine.CommandLine.Argument
import PhaseMachine.Log.Event
import PhaseMachine.Numeral.Integer

namespace PhaseMachine.CommandLine

/-- What a listing shows of an instruction: assembly, or the bytes of its encoding. -/
inductive ListingMode where
  | assembly | machine
deriving DecidableEq, Repr

def ListingMode.ofName? (s : String) : Option ListingMode :=
  if s = "assembly" then some .assembly else if s = "machine" then some .machine else none

/-- A setting that an option makes: a choice, or blank after two dashes, which stand for no value. -/
inductive Setting (α : Type) where
  | chosen (a : α)
  | blank
deriving DecidableEq, Repr

structure Settings where
  /-- The number of phases to carry out at most. -/
  steps : Setting (Option Int) := .chosen none
  listing : ListingMode := .assembly
  strict : Bool := false
  logLevel : Setting Severity := .chosen .warning
deriving DecidableEq, Repr

structure Invocation where
  file : String
  settings : Settings
deriving DecidableEq, Repr

def Settings.setBlank (t : Settings) : Switch → Option Settings
  | .steps => some { t with steps := .blank }
  | .listing => some { t with listing := .assembly }
  | .logLevel => some { t with logLevel := .blank }
  | .help | .strict => none

/-- The settings with the value of an option. -/
def Settings.set (t : Settings) (value : String) (s : Switch) : Option Settings :=
  if value = "--" then t.setBlank s
  else match s with
    | .steps => (Numeral.read 10 value).toOption.map fun n => { t with steps := .chosen (some n) }
    | .listing => (ListingMode.ofName? value).map fun listing => { t with listing }
    | .logLevel => (Severity.ofName? value).map fun level => { t with logLevel := .chosen level }
    | .help | .strict => none

/-- What the arguments so far ask for. -/
structure Draft where
  file? : Option String := none
  settings : Settings := {}
  /-- Whether there was an argument too many. -/
  surplus : Bool := false

namespace Draft

def addFile (d : Draft) (file : String) : Draft :=
  match d.file? with
  | none => { d with file? := some file }
  -- a second file is too many
  | some _ => { d with surplus := true }

def set (d : Draft) (s : Switch) (value : String) : Except Usage Draft :=
  match d.settings.set value s with
  | some settings => .ok { d with settings }
  | none => .error .wrong

/-- The draft after more arguments. -/
def add (d : Draft) : List Argument → Except Usage Draft
  | [] => .ok d
  -- two dashes go with the file next to them, in front of it or else behind it
  | .plain file :: .separator :: rest => (d.addFile file).add rest
  | .plain file :: rest => (d.addFile file).add rest
  | .separator :: .plain file :: rest => (d.addFile file).add rest
  -- anywhere else they are too many
  | .separator :: rest => { d with surplus := true }.add rest
  | .unknown :: rest => { d with surplus := true }.add rest
  | .switch .help none :: _ => .error .help
  | .switch .strict none :: rest => { d with settings.strict := true }.add rest
  | .switch s (some value) :: rest => do (← d.set s value).add rest
  | .switch s none :: .plain value :: rest => do (← d.set s value).add rest
  | .switch _ none :: _ => .error .wrong

def finish (d : Draft) : Except Usage Invocation :=
  match d.file?, d.surplus with
  | some file, false => .ok { file, settings := d.settings }
  | _, _ => .error .wrong

end Draft

def Invocation.parse (arguments : List String) : Except Usage Invocation := do
  (← ({} : Draft).add (← readArguments arguments)).finish

end PhaseMachine.CommandLine
