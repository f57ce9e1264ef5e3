/-
The flat machine: nothing but the values of registers and memory, a program and how far it has come.
It has no cache, no buses, no timers and no flags; a load reads its cell, a store writes it, and a fetch
sets the program counter to the place after the instruction. What it does is the list of its changes.
It writes no texts, so nothing stops it but an instruction that is malformed.
-/
import PhaseMachine.Machine.Step
import PhaseMachine.Proofs.History.Delta

namespace PhaseMachine

/-! ## Instructions over plain values -/

namespace Values

variable (v : Values)

/-- The value of the register with a name that some part of an instruction gives. -/
def named (part : Part) (name : String) : Except Flaw Int :=
  match v.register? name with
  | some x => .ok x
  | none => .error (.unknownRegister name part)

def destined : Field String → Except Flaw (String × Int)
  | .given name => (v.named .destination name).map fun x => (name, x)
  | _ => .error (.missing .destination)

def addressed : Field Int → Except Flaw (Int × Int)
  | .given a =>
    match v.cell? a with
    | some x => .ok (a, x)
    | none => .error (.outsideMemory a)
  | _ => .error (.missing .address)

def operand (part : Part) : Option Operand → Except Flaw Int
  | some (.literal x) => .ok x
  | some (.register name) => v.named part name
  | none => .error (.missing part)

end Values

namespace Instruction

def moveDeed (i : Instruction) (v : Values) : Except Flaw (List Change) := do
  let (name, old) ← v.destined i.destination
  let x ← v.operand .operand1 i.operand1
  return [.register ⟨name, old, x⟩]

def loadDeed (i : Instruction) (v : Values) : Except Flaw (List Change) :=
  match i.address with
  | .absent => i.moveDeed v
  | address => do
    let (name, old) ← v.destined i.destination
    let (_, x) ← v.addressed address
    return [.register ⟨name, old, x⟩]

def storeDeed (i : Instruction) (v : Values) : Except Flaw (List Change) := do
  let (_, x) ← v.destined i.destination
  let (a, old) ← v.addressed i.address
  return [.memory ⟨a, old, x⟩]

def computeDeed (i : Instruction) (f : Int → Int → Int) (v : Values) : Except Flaw (List Change) := do
  let (name, old) ← v.destined i.destination
  let x ← v.operand .operand1 i.operand1
  let y ← v.operand .operand2 i.operand2
  return [.register ⟨name, old, f x y⟩]

/-- What an instruction with fields of the right kinds changes, or what is wrong with it. Jumps and halt
change nothing. -/
def deed (i : Instruction) (v : Values) : Except Flaw (List Change) :=
  match i.opcode with
  | .load => i.loadDeed v
  | .store => i.storeDeed v
  | .mov => i.moveDeed v
  | o => match o.operation? with
    | some f => i.computeDeed f v
    | none => .ok []

/-- A malformed instruction changes nothing, or stops a strict machine. -/
def tried (i : Instruction) (strict : Bool) (v : Values) : Except Malformed (List Change) :=
  match i.deed v with
  | .ok changes => .ok changes
  | .error flaw => if strict then .error (i.malformed flaw) else .ok []

end Instruction

/-! ## The machine -/

/-- A machine of plain values. -/
structure FlatMachine where
  strict : Bool
  values : Values
  program : Program
  /-- The place of the current instruction in the program. -/
  index : Nat := 0
  /-- The stage that comes next. -/
  stage : Stage := .fetch
  pc : Nat := 0
  /-- The instruction fetched last. -/
  ir : Option Instruction := none
  /-- The changes of each step that was carried out. -/
  history : List (List Change) := []

namespace FlatMachine

def work (f : FlatMachine) (i : Instruction) : Except Malformed (List Change) :=
  match f.stage with
  | .fetch => .ok [.register ⟨"PC", (f.values.register? "PC").getD 0, ↑(f.index + 1)⟩]
  | .execute => i.tried f.strict f.values
  | .decode | .store => .ok []

def carry (f : FlatMachine) (i : Instruction) (changes : List Change) : FlatMachine :=
  { f with
    values := Change.replay f.values changes
    pc := if f.stage = .fetch then f.index + 1 else f.pc
    ir := if f.stage = .fetch then some i else f.ir
    history := f.history ++ [changes] }

def proceed (f : FlatMachine) : FlatMachine :=
  match f.stage.next? with
  | some stage => { f with stage }
  | none => { f with stage := .fetch, index := f.index + 1 }

/-- One step: whether there was a stage to carry out, or the malformed instruction that stops the machine,
and the machine after it. -/
def step (f : FlatMachine) : Except Malformed Bool × FlatMachine :=
  match f.program[f.index]? with
  | none => (.ok false, f)
  | some i =>
    match f.work i with
    | .error x => (.error x, f)
    | .ok changes => (.ok true, (f.carry i changes).proceed)

def after (f : FlatMachine) : Nat → FlatMachine
  | 0 => f
  | n + 1 => f.step.2.after n

/-- What a number of steps answer, in order. -/
def answers (f : FlatMachine) : Nat → List (Except Malformed Bool)
  | 0 => []
  | n + 1 => f.step.1 :: f.step.2.answers n

/-! ## Place and program counter -/

/-- The program counter and the place in the program belong together. -/
def Counted (f : FlatMachine) : Prop :=
  f.pc = if f.stage = .fetch then f.index else f.index + 1

variable {f : FlatMachine}

theorem counted_step (h : f.Counted) : f.step.2.Counted := by
  obtain ⟨strict, values, program, index, stage, pc, ir, history⟩ := f
  unfold step
  split
  · exact h
  · split
    · exact h
    · unfold Counted at h ⊢
      cases stage with
      | fetch => rfl
      | decode => exact h
      | execute => exact h
      | store => exact h

theorem program_step (f : FlatMachine) : f.step.2.program = f.program := by
  unfold step
  split
  · rfl
  · split
    · rfl
    · unfold proceed
      split <;> rfl

theorem after_add (f : FlatMachine) (n k : Nat) : f.after (n + k) = (f.after n).after k := by
  induction n generalizing f with
  | zero => rw [Nat.zero_add]; rfl
  | succ n ih =>
    rw [Nat.succ_add]
    exact ih f.step.2

theorem program_after (f : FlatMachine) (n : Nat) : (f.after n).program = f.program := by
  induction n generalizing f with
  | zero => rfl
  | succ n ih => exact (ih f.step.2).trans f.program_step

theorem Counted.after (h : f.Counted) (n : Nat) : (f.after n).Counted := by
  induction n generalizing f with
  | zero => exact h
  | succ n ih => exact ih (counted_step h)

end FlatMachine

end PhaseMachine
