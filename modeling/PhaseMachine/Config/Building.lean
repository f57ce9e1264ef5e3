/-
Building what a configuration describes: the machine of a setup, and the program of a plan, loaded
into it.
-/
import PhaseMachine.Config.Reading

namespace PhaseMachine.Config

/-! ## Sample programs -/

def parameter (p : ProgramPlan) (name : String) (default : Value) : Except Failure Value :=
  match p.parameters with
  | .map entries => .ok (Value.fieldD entries name default)
  | _ => .error .noFields

/-- An integer parameter. An infinite one is no mistake of the configuration but an overflow. -/
def integerParameter (p : ProgramPlan) (sample name : String) (default : Int) :
    Except Failure Int := do
  (← parameter p name (.int default)).toInteger.mapError fun
    | .infinite => .overflow Value.IntegerRefusal.infinite.message
    | r => .refused (.parameters sample (.number r))

def textParameter (p : ProgramPlan) (sample name default : String) : Except Failure String := do
  let v ← parameter p name (.str default)
  if v.isWritable then return v.text else refuse (.parameters sample .unwritable)

def buildSample (sample : String) (r : Except Samples.Refusal Program) : Except Failure Program :=
  r.mapError fun r => .refused (.parameters sample (.sample r))

def calculatorName : String := "calculator"

def trafficLightName : String := "traffic_light"

def buildCalculator (p : ProgramPlan) : Except Failure Program := do
  let a ← integerParameter p calculatorName "operand1" 5
  let b ← integerParameter p calculatorName "operand2" 3
  let operation ← textParameter p calculatorName "operation" "+"
  buildSample calculatorName (Samples.calculatorFor a b operation)

def buildTrafficLight (p : ProgramPlan) : Except Failure Program := do
  let state ← textParameter p trafficLightName "state" "RED"
  let sensor ← parameter p "sensor" (.bool false)
  buildSample trafficLightName (Samples.trafficLightFor (Text.upper state) sensor.truthy)

/-! ## Instructions -/

/-- A key and its value: the two elements of a member of a list of pairs. -/
def pairOf (index : Nat) (v : Value) : Except Failure (Value × Value) := do
  match ← elements v with
  | [key, value] => if key.isAtomic then return (key, value) else throw .wrongKind
  | parts => throw (.noPair index parts.length)

/-- The entries of a mapping, or those that a list of pairs makes. -/
def entriesOf (v : Value) : Except Failure Entries :=
  match v with
  | .map entries => .ok entries
  | v => do
    let pairs ← (← elements v).zipIdx.mapM fun p => pairOf p.2 p.1
    return pairs.foldl (fun done e => Value.insert e.1 e.2 done) []

/-- The first key that no instruction has, or the fact that a key is no text. -/
def badKey? (entries : Entries) : Option EntryRefusal :=
  if entries.any fun e => !e.1.isText then some .keyNotText
  else (entries.find? fun e => !isInstructionKey e.1).map fun e => .ofKey e.1.text

/-- The draft in the entries of an instruction. Without an id it takes its place as one. -/
def draftOf (index : Nat) (opcode : String) (entries : Entries) : Instruction.Draft :=
  {
    opcode := .str (Text.upper opcode)
    operand1 := .value (Value.fieldD entries "operand1" .null)
    operand2 := .value (Value.fieldD entries "operand2" .null)
    destination := Value.fieldD entries "destination" .null
    address := Value.fieldD entries "address" .null
    description := Value.fieldD entries "description" (.str "")
    id := Value.fieldD entries "id" (.str s!"i{index}")
  }

def buildInstruction (index : Nat) (v : Value) : Except Failure Instruction := do
  let entries ← entriesOf v
  match Value.field? entries "opcode" with
  | none => throw .missingOpcode
  | some opcode =>
    let opcode ← textOf opcode
    match badKey? entries with
    | some r => refuse (.instruction index r)
    | none => (Instruction.ofDraft (draftOf index opcode entries)).mapError fun r =>
      .refused (.instruction index (.instruction r))

def buildInstructions (instructions : Value) : Except Failure Program := do
  (← elements instructions).zipIdx.mapM fun p => buildInstruction p.2 p.1

/-! ## Programs and systems -/

def buildProgram (p : ProgramPlan) : Except Failure Program :=
  match p.sample with
  | none => buildInstructions p.instructions
  | some (.str name) =>
    if name = calculatorName then buildCalculator p
    else if name = trafficLightName then buildTrafficLight p
    else refuse (.unknownSample (.str name))
  | some v => refuse (.unknownSample v)

def ProgramPlan.log (p : ProgramPlan) (program : Program) : List Event :=
  if p.sample.isSome then [] else [.built program.length]

/-- A machine that was built, and what was reported meanwhile. -/
structure Built where
  machine : Machine Float
  log : List Event := []

/-- The machine of a system at a clock reading, with the program loaded. -/
def build (s : System) (clock : Float) : Except Failure Built := do
  let machine ← (Machine.ofSetup s.setup clock).mapError fun r => .refused (.machine r)
  match s.program with
  | none => return { machine }
  | some plan =>
    let program ← buildProgram plan
    return { machine := machine.load program, log := plan.log program ++ machine.loadLog program }

end PhaseMachine.Config
