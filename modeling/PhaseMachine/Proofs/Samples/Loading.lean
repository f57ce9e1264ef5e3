/-
What both sample programs begin with. They find the three general registers in a machine, and load a literal
into each of the first two, so all that they compute after that depends on these literals and not on what the
registers held.
-/
import PhaseMachine.Instruction.Samples
import PhaseMachine.Proofs.Flat.Program

namespace PhaseMachine.Samples

/-! ## Two literals -/

/-- The three registers that the sample programs work with are there. -/
structure HasRegisters (names : List String) : Prop where
  first : "R1" ∈ names
  second : "R2" ∈ names
  third : "R3" ∈ names

instance (names : List String) : Decidable (HasRegisters names) :=
  decidable_of_iff ("R1" ∈ names ∧ "R2" ∈ names ∧ "R3" ∈ names)
    ⟨fun ⟨h1, h2, h3⟩ => ⟨h1, h2, h3⟩, fun ⟨h1, h2, h3⟩ => ⟨h1, h2, h3⟩⟩

/-- The values after the first two instructions of a program have loaded two literals. -/
def loaded (v : Values) (x y : Int) : Values :=
  (((v.setRegister "PC" 1).setRegister "R1" x).setRegister "PC" 2).setRegister "R2" y

section

variable {v : Values} {x y : Int}

@[simp]
theorem names_loaded : (loaded v x y).names = v.names := by
  simp [loaded]

@[simp]
theorem cell?_loaded (address : Int) : (loaded v x y).cell? address = v.cell? address := by
  simp [loaded]

theorem first_loaded (hr : HasRegisters v.names) : (loaded v x y).register? "R1" = some x := by
  unfold loaded
  rw [Values.register?_setRegister_of_ne (by decide), Values.register?_setRegister_of_ne (by decide)]
  exact Values.register?_setRegister_self (by simpa using hr.first) x

theorem second_loaded (hr : HasRegisters v.names) : (loaded v x y).register? "R2" = some y :=
  Values.register?_setRegister_self (by simpa using hr.second) y

theorem third_loaded : (loaded v x y).register? "R3" = v.register? "R3" := by
  simp [loaded, Values.register?_setRegister_of_ne]

theorem ran_loads (hr : HasRegisters v.names) {description1 id1 description2 id2 : Value} (rest : Program) :
    v.ran 0
        ({ opcode := .load, operand1 := some (.literal x), destination := .given "R1"
           description := description1, id := id1 }
          :: { opcode := .load, operand1 := some (.literal y), destination := .given "R2"
               description := description2, id := id2 }
          :: rest) =
      (loaded v x y).ran 2 rest := by
  simp only [Values.ran]
  rw [Values.did_load_literal (by simpa using hr.second), Values.did_load_literal (by simpa using hr.first)]
  rfl

end

/-! ## Instructions that find what they ask for -/

section

variable {names : List String} {size : Nat} {destination : String} {x address : Int} {description id : Value}

theorem complete_load_literal (hd : destination ∈ names) (hx : Numeral.isWritable x = true) :
    let i : Instruction :=
      { opcode := .load, operand1 := some (.literal x), destination := .given destination, description, id }
    i.WellTyped ∧ i.Shown ∧ i.isComplete names size = true := by
  refine ⟨⟨rfl, rfl⟩, Instruction.shown_literal hx, ?_⟩
  simp [Instruction.isComplete, Instruction.hasDestination, Instruction.hasOperand, Operand.isKnown, hd]

theorem complete_store (hd : destination ∈ names) (ha : 0 ≤ address) (hsize : address < size) :
    let i : Instruction :=
      { opcode := .store, destination := .given destination, address := .given address, description, id }
    i.WellTyped ∧ i.Shown ∧ i.isComplete names size = true := by
  refine ⟨⟨rfl, rfl⟩, ⟨rfl, rfl⟩, ?_⟩
  simp [Instruction.isComplete, Instruction.hasDestination, Instruction.hasAddress, hd, ha, hsize]

end

/-! ## A standard machine -/

/-- Everything but the duration of steps, which has no default with exact times, is left to the defaults. -/
theorem isSome_standard :
    (Machine.ofSetup ({ stepDuration := 1000 } : Machine.Setup Rat) 0).toOption.isSome = true := by
  decide +kernel

def standard : Machine Rat :=
  (Machine.ofSetup ({ stepDuration := 1000 } : Machine.Setup Rat) 0).toOption.get isSome_standard

theorem reachable_standard : standard.Reachable :=
  .made (Machine.eq_ok_get isSome_standard)

/-- Whatever is done to it, it has what both programs need. -/
theorem layout_standard (ops : List (Machine.Op Rat)) :
    HasRegisters (standard.after ops).storage.registers.names ∧
      lightOutput < (standard.after ops).storage.memory.size := by
  obtain ⟨hnames, hsize⟩ := reachable_standard.sound.layout (reachable_standard.after ops).sound
    (standard.blank_after ops)
  rw [hnames, hsize]
  decide +kernel

end PhaseMachine.Samples
