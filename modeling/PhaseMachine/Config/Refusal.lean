/-
What can be wrong with configuration data. A refusal names a mistake in the configuration. Data of
the wrong shape altogether fails in other ways, which say less.
-/
import PhaseMachine.Instruction.Samples
import PhaseMachine.Machine.Basic
import PhaseMachine.Value.Number

namespace PhaseMachine.Config

/-- Why the parameters of a sample program are refused. -/
inductive ParameterRefusal where
  | number (r : Value.IntegerRefusal)
  /-- A value with an integer in it that is too long to be written. -/
  | unwritable
  | sample (r : Samples.Refusal)
deriving DecidableEq, Repr

def ParameterRefusal.message : ParameterRefusal → String
  | number r => r.message
  | unwritable => Numeral.unwritableMessage
  | sample r => r.message

/-- The key that stands for the instruction itself. No entry can give it a value. -/
def ownKeyName : String := "self"

/-- Why the entries of a mapping make no instruction. -/
inductive EntryRefusal where
  | keyNotText
  | unexpectedKey (name : String)
  /-- The key that stands for the instruction itself, which has a value already. -/
  | ownKey
  | instruction (r : Instruction.Refusal)

def EntryRefusal.message : EntryRefusal → String
  | keyNotText => "keywords must be strings"
  | unexpectedKey name => s!"Instruction.__init__() got an unexpected keyword argument '{name}'"
  | ownKey => s!"Instruction.__init__() got multiple values for argument '{ownKeyName}'"
  | instruction r => r.message

/-- Why a key that no instruction has is refused. -/
def EntryRefusal.ofKey (name : String) : EntryRefusal :=
  if name = ownKeyName then .ownKey else .unexpectedKey name

/-- A mistake in a configuration. -/
inductive Refusal where
  | notAMapping
  | integer (v : Value)
  | register (v : Value)
  | cacheLevel (v : Value)
  | cacheOrder (names : List String)
  | duration (v : Value)
  | programNotAMapping
  | programEmpty
  | programTwofold
  | noOpcode (index : Nat)
  | unknownKeys (index : Nat) (keys : List Value)
  | machine (r : Machine.Refusal)
  | parameters (sample : String) (r : ParameterRefusal)
  | unknownSample (v : Value)
  | instruction (index : Nat) (r : EntryRefusal)

def Refusal.message : Refusal → String
  | notAMapping => "Top-level configuration must be a mapping."
  | integer v => s!"Invalid integer format: {v.text}"
  | register v => s!"Invalid register entry: {v.literal}"
  | cacheLevel v => s!"Unknown cache level: {v.literal}"
  | cacheOrder names =>
    s!"Cache levels must be listed as L1, L2, L3 (got {(Value.list (names.map Value.str)).literal})."
  | duration v => s!"Invalid step duration: {v.literal}"
  | programNotAMapping => "'program' must be a mapping."
  | programEmpty => "'program' needs either 'example' or 'instructions'."
  | programTwofold => "'program' cannot define both 'example' and 'instructions'."
  | noOpcode index => s!"Instruction #{index} must be a mapping with an 'opcode'."
  | unknownKeys index keys => s!"Instruction #{index} has unknown keys: {(Value.list keys).literal}"
  | machine r => s!"Invalid machine configuration: {r.message}"
  | parameters sample r => s!"Invalid parameters for {sample}: {r.message}"
  | unknownSample v => s!"Unknown example program: {v.literal}"
  | instruction index r => s!"Invalid instruction #{index}: {r.message}"

/-- The values that the message shows. -/
def Refusal.values : Refusal → List Value
  | integer v | register v | cacheLevel v | duration v | unknownSample v => [v]
  | unknownKeys _ keys => keys
  | _ => []

/-- How reading or building fails. -/
inductive Failure where
  | refused (r : Refusal)
  /-- A hexadecimal numeral that is none. -/
  | numeral (r : Numeral.Refusal)
  /-- A value to be shown with an integer in it that is too long to be written. -/
  | unwritable
  /-- A member of a list of pairs that has another length. -/
  | noPair (index length : Nat)
  /-- A number out of range. -/
  | overflow (message : String)
  /-- An instruction without an opcode that nobody has checked. -/
  | missingOpcode
  /-- Something other than a mapping where the fields of a mapping are asked for. -/
  | noFields
  /-- A value that cannot be used in its place. -/
  | wrongKind

/-- What the failure says, nothing if it only shows that the data has the wrong shape. -/
def Failure.message : Failure → String
  | refused r => r.message
  | numeral r => r.message
  | unwritable => Numeral.unwritableMessage
  | noPair index length =>
    s!"dictionary update sequence element #{index} has length {length}; 2 is required"
  | overflow message => message
  | missingOpcode | noFields | wrongKind => ""

/-- A mistake is refused if the values that its message shows can be written. -/
def refuse {α : Type} (r : Refusal) : Except Failure α :=
  .error (if r.values.all Value.isWritable then .refused r else .unwritable)

def textOf (v : Value) : Except Failure String :=
  if v.isWritable then .ok v.text else .error .unwritable

end PhaseMachine.Config
