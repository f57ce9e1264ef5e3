/-
Reading a system from configuration data: the setup of a machine, and a program that is either one
of the samples or a list of instructions.
-/
import PhaseMachine.Config.Refusal
import PhaseMachine.Text.Upper
import PhaseMachine.Value.Order

namespace PhaseMachine.Config

abbrev Entries := List (Value × Value)

/-- A program as it is configured. A sample program takes the parameters in a mapping; any other is
given by a list of its instructions, each a mapping. -/
structure ProgramPlan where
  sample : Option Value := none
  parameters : Value := .map []
  instructions : Value := .list []

/-- A machine and perhaps a program for it. -/
structure System where
  setup : Machine.Setup Float
  program : Option ProgramPlan := none

/-! ## Parts -/

/-- An integer, or the text of one in base 10 or, marked by `0x`, in base 16. -/
def readInteger (v : Value) : Except Failure Int :=
  match v with
  | .int i => .ok i
  | .str s =>
    if Operand.hasHexMark s.toList then (Numeral.read 16 s).mapError .numeral
    else match Numeral.read 10 s with
      | .ok i => .ok i
      | .error _ => refuse (.integer v)
  | _ => refuse (.integer v)

/-- What there is to go through in a value: the items of a list, the keys of a mapping, the
characters of a text. -/
def elements (v : Value) : Except Failure (List Value) :=
  match v with
  | .list items => .ok items
  | .map entries => .ok (entries.map (·.1))
  | .str s => .ok ((Text.characters s.toList).map Value.str)
  | _ => .error .wrongKind

/-- A register: a name, or a mapping with a name and perhaps a description. -/
def readRegister (v : Value) : Except Failure (String × String) :=
  match v with
  | .str name => .ok (name, "")
  | .map entries => match Value.field? entries "name" with
    | some name => do
      return (← textOf name, ← textOf (Value.fieldD entries "description" (.str "")))
    | none => refuse (.register v)
  | _ => refuse (.register v)

def readLevel (v : Value) : Except Failure (Cache.Tier × Int) :=
  match v with
  | .map entries => do
    match Cache.Tier.ofName? (Text.upper (← textOf (Value.fieldD entries "level" (.str "")))) with
    | some tier => return (tier, ← readInteger (Value.fieldD entries "size" .null))
    | none => refuse (.cacheLevel (Value.fieldD entries "level" .null))
  | _ => .error .noFields

/-- The sizes of the levels, which have to be listed in order. -/
def readCache (v : Value) : Except Failure (List Int) := do
  let levels ← (← elements v).mapM readLevel
  if levels.map (·.1) = Cache.Tier.all then return levels.map (·.2)
  else refuse (.cacheOrder (levels.map (·.1.name)))

def readDuration (v : Value) : Except Failure Float :=
  match v.toFloat with
  | .ok x => .ok x
  | .error .notANumber => refuse (.duration v)
  | .error .tooLarge => .error (.overflow Value.tooLargeMessage)

/-! ## Machine -/

/-- A part of a mapping, or a default if the mapping has no such key. -/
def optional {α : Type} (entries : Entries) (name : String) (default : α)
    (read : Value → Except Failure α) : Except Failure α :=
  match Value.field? entries name with
  | some v => read v
  | none => .ok default

/-- A choice that is off unless its value counts as true. -/
def choice (entries : Entries) (name : String) : Bool :=
  (Value.fieldD entries name (.bool false)).truthy

def readSetup (entries : Entries) : Except Failure (Machine.Setup Float) := do
  let memorySize ← optional entries "memory_size" Memory.defaultSize readInteger
  let registers ← optional entries "registers" RegisterBank.defaultSpecs fun v => do
    (← elements v).mapM readRegister
  let cacheSizes ← optional entries "cache" Cache.Hierarchy.defaultSizes readCache
  let stepDuration ← optional entries "step_duration_ms" Machine.defaultDuration readDuration
  return {
    memorySize, registers, cacheSizes, stepDuration
    demoteVictims := choice entries "demote_victims"
    strict := choice entries "strict"
  }

/-- The keys that are looked for before any field is asked for. -/
def soughtKeys : List String :=
  ["memory_size", "registers", "cache"]

/-- Whether a text occurs in another. -/
def occurs (part : List Char) : List Char → Bool
  | [] => part.isEmpty
  | c :: cs => part.isPrefixOf (c :: cs) || occurs part cs

/-- The setup in a value that counts as true. In a list or a text keys can be sought, but neither
has fields. -/
def readMachine (v : Value) : Except Failure (Machine.Setup Float) :=
  match v with
  | .map entries => readSetup entries
  | .list items =>
    .error (if soughtKeys.any fun k => items.any (·.sameKey (.str k)) then .wrongKind else .noFields)
  | .str s =>
    .error (if soughtKeys.any fun k => occurs k.toList s.toList then .wrongKind else .noFields)
  | _ => .error .wrongKind

/-! ## Program -/

def instructionKeys : List String :=
  ["opcode", "operand1", "operand2", "destination", "address", "description", "id"]

def isInstructionKey (key : Value) : Bool :=
  instructionKeys.any fun k => key.sameKey (.str k)

/-- The entries of an instruction, with the address as an integer. -/
def readEntries (index : Nat) (v : Value) : Except Failure Entries :=
  match v with
  | .map entries =>
    if (Value.field? entries "opcode").isNone then refuse (.noOpcode index)
    else match (entries.map (·.1)).filter (fun k => !isInstructionKey k) with
      | [] => match Value.field? entries "address" with
        | some a => do return Value.insert (.str "address") (.int (← readInteger a)) entries
        | none => .ok entries
      | unknown => match Value.sorted? unknown with
        | some keys => refuse (.unknownKeys index keys)
        | none => .error .wrongKind
  | _ => refuse (.noOpcode index)

def readAllEntries (items : List Value) : Except Failure (List Entries) :=
  items.zipIdx.mapM fun p => readEntries p.2 p.1

/-- A field that counts as absent if it is null. -/
def given? (entries : Entries) (name : String) : Option Value :=
  match Value.field? entries name with
  | some .null => none
  | v => v

/-- A field that counts as absent unless its value counts as true. -/
def positive? (entries : Entries) (name : String) : Option Value :=
  (Value.field? entries name).filter Value.truthy

/-- The entries that are neither the sample nor the instructions. -/
def parametersOf (entries : Entries) : Entries :=
  entries.filter fun e => !(e.1.sameKey (.str "example") || e.1.sameKey (.str "instructions"))

/-- The program in a value that counts as true. -/
def readProgram (v : Value) : Except Failure ProgramPlan :=
  match v with
  | .map entries =>
    match given? entries "example", positive? entries "instructions" with
    | none, none => refuse .programEmpty
    | some _, some _ => refuse .programTwofold
    | some sample, none => .ok { sample, parameters := .map (parametersOf entries) }
    | none, some items => do
      let instructions ← readAllEntries (← elements items)
      return {
        parameters := .map (parametersOf entries)
        instructions := .list (instructions.map Value.map) }
  | _ => refuse .programNotAMapping

/-! ## System -/

/-- The system in configuration data. Data that does not count as true configures nothing. -/
def readSystem (v : Value) : Except Failure System :=
  if !v.truthy then do return { setup := ← readSetup [] }
  else match v with
  | .map entries => do
    let setup ← match positive? entries "machine" with
      | some m => readMachine m
      | none => readSetup []
    match positive? entries "program" with
      | some p => return { setup, program := some (← readProgram p) }
      | none => return { setup }
  | _ => refuse .notAMapping

end PhaseMachine.Config
