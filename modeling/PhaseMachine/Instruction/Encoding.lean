/-
The hexadecimal encoding of instructions and the listing of a program. An instruction takes the
byte of its opcode and, if it has an address or two operands, a payload of two bytes.
-/
import PhaseMachine.Instruction.Basic

namespace PhaseMachine

open Text

/-- The byte of an operand. A register takes the zero byte. -/
def Operand.byte : Operand → Int
  | literal value => value % 256
  | register _ => 0

namespace Instruction

/-- The address as two bytes. -/
def addressPayload : Field Int → Except Misuse (Option String)
  | .absent => .ok none
  | .given a => .ok (some (hex 4 (a % 65536)))
  | .foreign (.bool b) => .ok (some (hex 4 b.toNat))
  | .foreign _ => .error .wrongKind

/-- The two bytes of the operands, if there are two. -/
def operandPayload (i : Instruction) : String :=
  match i.operand1, i.operand2 with
  | some a, some b => hex 2 a.byte ++ hex 2 b.byte
  | _, _ => ""

/-- The encoding: an address takes the place of operands. -/
def token (i : Instruction) : Except Misuse String := do
  let payload := (← addressPayload i.address).getD i.operandPayload
  return hex 2 i.opcode.encoding ++ payload

end Instruction

/-- The characters in groups of two; a last one may stand alone. -/
def pairs : List String → List String
  | a :: b :: rest => (a ++ b) :: pairs rest
  | [a] => [a]
  | [] => []

/-- A token with a blank after each two characters. -/
def splitBytes (token : String) : String :=
  " ".intercalate (pairs (characters token.toList))

structure ListingLine where
  index : Nat
  bytes : String
  mnemonic : String
deriving DecidableEq, Repr

def Instruction.listingLine (index : Nat) (i : Instruction) : Except Misuse ListingLine := do
  return ⟨index, splitBytes (← i.token), ← i.assembly⟩

/-- The listing of a program from an index on. -/
def listingFrom (index : Nat) : Program → Except Misuse (List ListingLine)
  | [] => .ok []
  | i :: rest => do return (← i.listingLine index) :: (← listingFrom (index + 1) rest)

def listing (p : Program) : Except Misuse (List ListingLine) :=
  listingFrom 0 p

end PhaseMachine
