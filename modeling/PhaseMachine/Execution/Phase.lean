/-
The phases of the machine. Each instruction goes through four stages; before the first and after
the last instruction the machine is idle.
-/

namespace PhaseMachine

inductive Stage where
  | fetch | decode | execute | store
deriving DecidableEq, Repr

namespace Stage

def all : List Stage :=
  [fetch, decode, execute, store]

def name : Stage → String
  | fetch => "FETCH"
  | decode => "DECODE"
  | execute => "EXECUTE"
  | store => "STORE"

def next? : Stage → Option Stage
  | fetch => some decode
  | decode => some execute
  | execute => some store
  | store => none

end Stage

inductive Phase where
  | idle
  | at (stage : Stage)
deriving DecidableEq, Repr

namespace Phase

def all : List Phase :=
  Stage.all.map Phase.at ++ [idle]

def name : Phase → String
  | idle => "IDLE"
  | .at stage => stage.name

def ofName? (s : String) : Option Phase :=
  all.find? fun p => p.name == s

end Phase

end PhaseMachine
