/-
The eleven opcodes: names, one-byte encodings, descriptions and cycle costs, and the arithmetic of the four
that compute. Division rounds toward negative infinity, and a division by zero answers zero.
-/
import PhaseMachine.Value.Text

namespace PhaseMachine

inductive Opcode where
  | load | store | add | sub | mul | div | jmp | jz | jnz | halt | mov
deriving DecidableEq, Repr, Inhabited

namespace Opcode

def all : List Opcode :=
  [load, store, add, sub, mul, div, jmp, jz, jnz, halt, mov]

def name : Opcode → String
  | load => "LOAD"
  | store => "STORE"
  | add => "ADD"
  | sub => "SUB"
  | mul => "MUL"
  | div => "DIV"
  | jmp => "JMP"
  | jz => "JZ"
  | jnz => "JNZ"
  | halt => "HALT"
  | mov => "MOV"

def ofName? (s : String) : Option Opcode :=
  all.find? fun o => o.name == s

def encoding : Opcode → Nat
  | load => 0x01
  | store => 0x02
  | add => 0x03
  | sub => 0x04
  | mul => 0x05
  | div => 0x06
  | jmp => 0x07
  | jz => 0x08
  | jnz => 0x09
  | halt => 0x0A
  | mov => 0x0B

def description : Opcode → String
  | load => "Load value from memory into register"
  | store => "Store register value to memory"
  | add => "Add two values"
  | sub => "Subtract two values"
  | mul => "Multiply two values"
  | div => "Divide two values"
  | jmp => "Jump to address"
  | jz => "Jump if zero"
  | jnz => "Jump if not zero"
  | halt => "Halt execution"
  | mov => "Move value between registers"

/-- The cycles that an instruction takes: three for memory access, multiplication and division. -/
def cycles : Opcode → Nat
  | load | store | mul | div => 3
  | jmp | jz | jnz => 2
  | add | sub | mov | halt => 1

def isArithmetic : Opcode → Bool
  | add | sub | mul | div => true
  | _ => false

/-- Division toward negative infinity, zero for a divisor of zero. -/
def quotient (a b : Int) : Int :=
  if b = 0 then 0 else a.fdiv b

def operation? : Opcode → Option (Int → Int → Int)
  | add => some (· + ·)
  | sub => some (· - ·)
  | mul => some (· * ·)
  | div => some quotient
  | _ => none

def compute? (o : Opcode) (a b : Int) : Option Int :=
  o.operation?.map fun f => f a b

/-- The message that an opcode has no result. -/
def notArithmetic (o : Opcode) : String :=
  s!"{o.name} is not an arithmetic opcode."

/-- The opcode that a value names, or the value itself if it names none. -/
def ofValue (v : Value) : Except Value Opcode :=
  match v with
  | .str s => match ofName? s with
    | some o => .ok o
    | none => .error v
  | _ => .error v

end Opcode

/-- The message that a value is outside an enumeration of names. -/
def notAMember (v : Value) (enumeration : String) : String :=
  s!"{v.literal} is not a valid {enumeration}"

end PhaseMachine
