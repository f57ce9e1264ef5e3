/-
When an instruction is malformed. Which of its fields an opcode needs, and what they have to name, is
plain from the instruction, the names of the registers and the size of memory; no value counts. A
well-typed instruction that has all of it finds what it asks for, and one that lacks some has a flaw.
-/
import PhaseMachine.Proofs.Execution.Action

namespace PhaseMachine

/-! ## What an instruction needs -/

/-- Whether an operand is an integer or one of the registers. -/
def Operand.isKnown (names : List String) : Operand → Bool
  | literal _ => true
  | register name => names.contains name

namespace Instruction

/-- Whether the destination is one of the registers. -/
def hasDestination (i : Instruction) (names : List String) : Bool :=
  match i.destination with
  | .given name => names.contains name
  | _ => false

/-- Whether there is an address, and it is inside memory. -/
def hasAddress (i : Instruction) (size : Nat) : Bool :=
  match i.address with
  | .given a => 0 ≤ a && a < size
  | _ => false

/-- Whether there is an operand, and it is an integer or one of the registers. -/
def hasOperand (operand : Option Operand) (names : List String) : Bool :=
  operand.any (Operand.isKnown names)

/-- Whether the instruction has all that its opcode needs. An address comes before the operand of a
load, even one outside memory. -/
def isComplete (i : Instruction) (names : List String) (size : Nat) : Bool :=
  match i.opcode with
  | .jmp | .jz | .jnz | .halt => true
  | .store => i.hasDestination names && i.hasAddress size
  | .load =>
    i.hasDestination names &&
      match i.address with
      | .absent => hasOperand i.operand1 names
      | _ => i.hasAddress size
  | .mov => i.hasDestination names && hasOperand i.operand1 names
  | .add | .sub | .mul | .div =>
    i.hasDestination names && (hasOperand i.operand1 names && hasOperand i.operand2 names)

/-- Of the registers, only the set of their names counts. -/
theorem isComplete_congr (i : Instruction) {names others : List String}
    (h : ∀ name, name ∈ others ↔ name ∈ names) (size : Nat) :
    i.isComplete others size = i.isComplete names size := by
  have hcontains : ∀ name, others.contains name = names.contains name := fun name => by
    rw [Bool.eq_iff_iff, List.contains_iff_mem, List.contains_iff_mem]
    exact h name
  have hdestination : i.hasDestination others = i.hasDestination names := by
    unfold hasDestination
    split
    · exact hcontains _
    · rfl
  have hoperand : ∀ operand, hasOperand operand others = hasOperand operand names := by
    intro operand
    have hknown : Operand.isKnown others = Operand.isKnown names := by
      funext o
      cases o with
      | literal value => rfl
      | register name => exact hcontains name
    rw [hasOperand, hasOperand, hknown]
  unfold isComplete
  simp only [hdestination, hoperand]

end Instruction

/-! ## Look-ups that a condition decides -/

/-- A look-up finds something if a condition holds, and else a flaw. -/
def Decides {α : Type} (b : Bool) (x : Except Fault α) : Prop :=
  (b = true ∧ ∃ a, x = .ok a) ∨ (b = false ∧ ∃ w, x = .error (.flaw w))

namespace Decides

variable {α β : Type} {b c : Bool} {x : Except Fault α} {f : α → Except Fault β}

theorem ok (a : α) : Decides true (.ok a : Except Fault α) :=
  .inl ⟨rfl, a, rfl⟩

theorem flaw (w : Flaw) : Decides false (.error (.flaw w) : Except Fault α) :=
  .inr ⟨rfl, w, rfl⟩

/-- What goes on from a look-up needs both conditions. -/
theorem bind (h : Decides b x) (hf : ∀ a, Decides c (f a)) : Decides (b && c) (x >>= f) := by
  rcases h with ⟨rfl, a, rfl⟩ | ⟨rfl, w, rfl⟩
  · exact hf a
  · exact .flaw w

/-- What a look-up found is only used. -/
theorem map (h : Decides b x) {g : α → β} : Decides b (x >>= fun a => .ok (g a)) := by
  rw [← Bool.and_true b]
  exact h.bind fun a => .ok (g a)

end Decides

namespace Storage

variable (s : Storage)

theorem namedRegister_decides (part : Part) (name : String) :
    Decides (s.registers.names.contains name) (s.namedRegister part (.given name)) := by
  have hiff := s.registers.isSome_find? name
  simp only [namedRegister, RegisterBank.get]
  cases hf : s.registers.find? name with
  | some r =>
    rw [hf] at hiff
    rw [List.contains_iff_mem.2 (hiff.1 rfl)]
    exact .ok r
  | none =>
    have hn : s.registers.names.contains name = false := by
      rw [Bool.eq_false_iff]
      intro hc
      rw [hf] at hiff
      cases hiff.2 (List.contains_iff_mem.1 hc)
    rw [hn]
    exact .flaw (.unknownRegister name part)

theorem addressedCell_decides {i : Instruction} (hi : i.address.isProper = true) :
    Decides (i.hasAddress s.memory.size) (s.addressedCell i.address) := by
  unfold Instruction.hasAddress addressedCell
  cases ha : i.address with
  | absent => exact .flaw (.missing .address)
  | foreign v => rw [ha] at hi; cases hi
  | given a =>
    have hiff := s.memory.isSome_find? a
    dsimp only
    cases hf : s.memory.find? a with
    | some c =>
      rw [hf] at hiff
      obtain ⟨h0, hlt⟩ := hiff.1 rfl
      rw [decide_eq_true h0, decide_eq_true hlt]
      exact .ok (a, c)
    | none =>
      have hn : (decide (0 ≤ a) && decide (a < s.memory.size)) = false := by
        rw [Bool.eq_false_iff]
        intro hc
        obtain ⟨h0, hlt⟩ := Bool.and_eq_true_iff.1 hc
        rw [hf] at hiff
        cases hiff.2 ⟨of_decide_eq_true h0, of_decide_eq_true hlt⟩
      rw [hn]
      exact .flaw (.outsideMemory a)

theorem destination_decides {i : Instruction} (hi : i.destination.isProper = true) :
    Decides (i.hasDestination s.registers.names) (s.namedRegister .destination i.destination) := by
  unfold Instruction.hasDestination
  cases hd : i.destination with
  | absent => exact .flaw (.missing .destination)
  | foreign v => rw [hd] at hi; cases hi
  | given name => exact s.namedRegister_decides .destination name

theorem operandSource_decides (part : Part) (o : Option Operand) :
    Decides (Instruction.hasOperand o s.registers.names) (s.operandSource part o) := by
  cases o with
  | none => exact .flaw (.missing part)
  | some o =>
    cases o with
    | literal x => exact .ok (Source.mk none x)
    | register name => exact (s.namedRegister_decides part name).map

end Storage

/-! ## Instructions -/

namespace Instruction

variable {i : Instruction} {s : Storage}

theorem moveAction_decides (hi : i.WellTyped) :
    Decides (i.hasDestination s.registers.names && hasOperand i.operand1 s.registers.names)
      (i.moveAction s) :=
  (s.destination_decides hi.1).bind fun _ => (s.operandSource_decides .operand1 i.operand1).map

theorem loadAction_decides (hi : i.WellTyped) :
    Decides (i.hasDestination s.registers.names &&
      match i.address with
      | .absent => hasOperand i.operand1 s.registers.names
      | _ => i.hasAddress s.memory.size) (i.loadAction s) := by
  have haddress := s.addressedCell_decides hi.2
  unfold loadAction
  -- without an address, a load is a move
  cases ha : i.address with
  | absent => exact moveAction_decides hi
  | foreign v => exact absurd hi.2 (by rw [ha]; exact Bool.false_ne_true)
  | given a =>
    rw [ha] at haddress
    exact (s.destination_decides hi.1).bind fun _ => haddress.map

theorem storeAction_decides (hi : i.WellTyped) :
    Decides (i.hasDestination s.registers.names && i.hasAddress s.memory.size) (i.storeAction s) :=
  (s.destination_decides hi.1).bind fun _ => (s.addressedCell_decides hi.2).map

theorem computeAction_decides (hi : i.WellTyped) (f : Int → Int → Int) :
    Decides (i.hasDestination s.registers.names &&
      (hasOperand i.operand1 s.registers.names && hasOperand i.operand2 s.registers.names))
      (i.computeAction f s) :=
  (s.destination_decides hi.1).bind fun _ =>
    (s.operandSource_decides .operand1 i.operand1).bind fun _ =>
      (s.operandSource_decides .operand2 i.operand2).map

/-- A well-typed instruction finds what it asks for if it is complete, and has a flaw if not. -/
theorem action_decides (hi : i.WellTyped) :
    Decides (i.isComplete s.registers.names s.memory.size) (i.action s) := by
  unfold isComplete action
  cases i.opcode with
  | load => exact loadAction_decides hi
  | store => exact storeAction_decides hi
  | mov => exact moveAction_decides hi
  | add => exact computeAction_decides hi _
  | sub => exact computeAction_decides hi _
  | mul => exact computeAction_decides hi _
  | div => exact computeAction_decides hi _
  | _ => exact .ok Action.nothing

end Instruction

end PhaseMachine
