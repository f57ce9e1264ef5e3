/-
The calculator program computes, whatever the machine did before. It finds all it asks for as soon as there
are the three registers and the cell for the result, and it reads no register that it has not set. The
result that it stores is the one that a later program loads, for a load comes to what is in the cell.
-/
import Mathlib.Data.Rat.Floor
import PhaseMachine.Proofs.Samples.Loading

namespace PhaseMachine

namespace Samples

/-! ## Results -/

/-- What an operation should come to. A quotient is rounded down, and zero if there is none. -/
def Operation.result (a b : Int) : Operation → Int
  | plus => a + b
  | minus => a - b
  | times => a * b
  | dividedBy => if b = 0 then 0 else ⌊(a : Rat) / b⌋

theorem floor_div (a b : Int) : ⌊(a : Rat) / b⌋ = a.fdiv b := by
  obtain ⟨n, rfl | rfl⟩ := b.eq_nat_or_neg
  · rw [Int.fdiv_eq_ediv_of_nonneg a (Int.natCast_nonneg n)]
    exact Rat.floor_intCast_div_natCast a n
  · -- a quotient by a negative number is that of the negated numbers
    have hneg : a.fdiv (-n) = (-a).fdiv n := by
      rw [← Int.neg_fdiv_neg, neg_neg]
    rw [hneg, Int.fdiv_eq_ediv_of_nonneg (-a) (Int.natCast_nonneg n), ← Rat.floor_intCast_div_natCast]
    push_cast
    rw [div_neg, neg_div]

/-- The opcode of an operation computes its result. -/
theorem Operation.operation?_opcode (o : Operation) :
    ∃ f, o.opcode.operation? = some f ∧ ∀ a b, f a b = o.result a b := by
  cases o with
  | dividedBy =>
    refine ⟨Opcode.quotient, rfl, fun a b => ?_⟩
    unfold Opcode.quotient Operation.result
    rw [floor_div]
  | _ => exact ⟨_, rfl, fun a b => rfl⟩

/-! ## The program -/

/-- The program only looks at registers that it has set before. -/
theorem ran_calculator {v : Values} (hr : HasRegisters v.names) (hsize : calculatorResult < v.memory.length)
    (a b : Int) (o : Operation) :
    (v.ran 0 (calculator a b o)).register? "R1" = some a ∧
    (v.ran 0 (calculator a b o)).register? "R2" = some b ∧
    (v.ran 0 (calculator a b o)).register? "R3" = some (o.result a b) ∧
    (v.ran 0 (calculator a b o)).cell? calculatorResult = some (o.result a b) := by
  obtain ⟨f, hf, hresult⟩ := o.operation?_opcode
  obtain ⟨c, hc⟩ := Option.isSome_iff_exists.1 ((v.isSome_cell? calculatorResult).2 ⟨by decide, hsize⟩)
  have hfirst : ((loaded v a b).setRegister "PC" 3).register? "R1" = some a := by
    rw [Values.register?_setRegister_of_ne (by decide), first_loaded hr]
  have hsecond : ((loaded v a b).setRegister "PC" 3).register? "R2" = some b := by
    rw [Values.register?_setRegister_of_ne (by decide), second_loaded hr]
  let computed := ((loaded v a b).setRegister "PC" 3).setRegister "R3" (f a b)
  have hthird : (computed.setRegister "PC" 4).register? "R3" = some (f a b) := by
    rw [Values.register?_setRegister_of_ne (by decide)]
    exact Values.register?_setRegister_self (by simpa using hr.third) _
  have hran : v.ran 0 (calculator a b o) = (computed.setRegister "PC" 4).setCell calculatorResult (f a b) := by
    rw [calculator, ran_loads hr]
    show ((((loaded v a b).setRegister "PC" 3).did _).setRegister "PC" 4).did _ = _
    rw [Values.did_compute hf (by simpa using hr.third) hfirst hsecond,
      Values.did_store hthird (by simp [computed, hc])]
  rw [hran, ← hresult]
  refine ⟨?_, ?_, ?_, ?_⟩
  · rw [Values.register?_setCell, Values.register?_setRegister_of_ne (by decide),
      Values.register?_setRegister_of_ne (by decide)]
    exact hfirst
  · rw [Values.register?_setCell, Values.register?_setRegister_of_ne (by decide),
      Values.register?_setRegister_of_ne (by decide)]
    exact hsecond
  · rw [Values.register?_setCell]
    exact hthird
  · simp [Values.cell?_setCell, computed, hc]

theorem calculatorFor_ok_iff {a b : Int} {o : Operation} {program : Program} :
    calculatorFor a b o.symbol = .ok program ↔
      (Numeral.isWritable a = true ∧ Numeral.isWritable b = true) ∧ calculator a b o = program := by
  have ho : Operation.ofSymbol? o.symbol = some o := by cases o <;> decide
  unfold calculatorFor
  rw [ho]
  dsimp only
  split
  · next h => simp [Bool.and_eq_true_iff.1 h]
  · next h =>
    rw [Bool.and_eq_true] at h
    simp [h]

/-- With the registers and the cell in place, each instruction finds what it asks for, and it can be shown
because the operands can be written. -/
theorem complete_calculator {a b : Int} {o : Operation} (ha : Numeral.isWritable a = true)
    (hb : Numeral.isWritable b = true) {names : List String} (hr : HasRegisters names) {size : Nat}
    (hsize : calculatorResult < size) :
    ∀ i ∈ calculator a b o, i.WellTyped ∧ i.Shown ∧ i.isComplete names size = true := by
  intro i hi
  simp only [calculator, List.mem_cons, List.not_mem_nil, or_false] at hi
  rcases hi with rfl | rfl | rfl | rfl
  · exact complete_load_literal hr.first ha
  · exact complete_load_literal hr.second hb
  · refine ⟨⟨rfl, rfl⟩, ⟨rfl, rfl⟩, ?_⟩
    cases o <;> simp [Operation.opcode, Instruction.isComplete, Instruction.hasDestination,
      Instruction.hasOperand, Operand.isKnown, hr.first, hr.second, hr.third]
  · exact complete_store hr.third (by decide) hsize

/-- The program that loads the stored result into a register. -/
def reload (description id : Value) : Program :=
  [{ opcode := .load, destination := .given "R1", address := .given calculatorResult, description, id }]

theorem complete_reload (description id : Value) {names : List String} (hr : HasRegisters names) {size : Nat}
    (hsize : calculatorResult < size) :
    ∀ i ∈ reload description id, i.WellTyped ∧ i.Shown ∧ i.isComplete names size = true := by
  have hin : (0 : Int) ≤ calculatorResult := by decide
  intro i hi
  rw [List.mem_singleton.1 hi]
  refine ⟨⟨rfl, rfl⟩, ⟨rfl, rfl⟩, ?_⟩
  simp [Instruction.isComplete, Instruction.hasDestination, Instruction.hasAddress, hr.first, hin, hsize]

/-! ## The machine -/

section

variable {τ : Type}

/-- Nothing but the three registers, the program counter and the cell of the result has another value. -/
structure Framed (m now : Machine τ) : Prop where
  register : ∀ name ∉ ["R1", "R2", "R3", "PC"],
    now.storage.registers.value? name = m.storage.registers.value? name
  cell : ∀ address ≠ calculatorResult, now.storage.memory.value? address = m.storage.memory.value? address

/-- The operands and the result are in the registers, and the result is in its cell. -/
structure Calculated (now : Machine τ) (a b : Int) (o : Operation) : Prop where
  first : now.storage.registers.value? "R1" = some a
  second : now.storage.registers.value? "R2" = some b
  third : now.storage.registers.value? "R3" = some (o.result a b)
  cell : now.storage.memory.value? calculatorResult = some (o.result a b)

variable [Quantity τ] {m : Machine τ} {ops : List (Machine.Op τ)}

theorem framed_calculator (hm : m.Reachable) {a b : Int} {o : Operation}
    (hw : ∀ i ∈ calculator a b o, i.WellTyped) (ho : ∀ op ∈ ops, op.restarts = false) :
    Framed m ((m.load (calculator a b o)).after ops) := by
  have hspares := Machine.spares_run hm hw ho
  constructor
  · intro name hn
    simp only [List.mem_cons, List.not_mem_nil, or_false, not_or] at hn
    rw [← Storage.register?_values, ← Storage.register?_values]
    refine hspares.register name hn.2.2.2 fun i hi hset => ?_
    simp only [calculator, List.mem_cons, List.not_mem_nil, or_false] at hi
    rcases hi with rfl | rfl | rfl | rfl
    · exact hn.1 (Field.given.inj hset.2).symm
    · exact hn.2.1 (Field.given.inj hset.2).symm
    · exact hn.2.2.1 (Field.given.inj hset.2).symm
    · exact hset.1 rfl
  · intro address ha
    rw [← Storage.cell?_values, ← Storage.cell?_values]
    refine hspares.cell address fun i hi hwrite => ?_
    simp only [calculator, List.mem_cons, List.not_mem_nil, or_false] at hi
    rcases hi with rfl | rfl | rfl | rfl
    · cases hwrite.2
    · cases hwrite.2
    · cases hwrite.2
    · exact ha (Field.given.inj hwrite.2).symm

/-- Once a machine is through the program, it holds what the program computes. -/
theorem calculated (hm : m.Reachable) (hr : HasRegisters m.storage.registers.names)
    (hsize : calculatorResult < m.storage.memory.size) {a b : Int} {o : Operation}
    (hf : (m.load (calculator a b o)).Faultless) (ho : ∀ op ∈ ops, op.restarts = false)
    (hsteps : 16 ≤ Machine.stepCount ops) : Calculated ((m.load (calculator a b o)).after ops) a b o := by
  have hvalues := (hf.run hm ho).2 hsteps
  obtain ⟨h1, h2, h3, hcell⟩ := ran_calculator (v := m.storage.values) (by rw [Storage.names_values]; exact hr)
    (by rw [Storage.length_values]; exact hsize) a b o
  rw [← hvalues, Storage.register?_values] at h1 h2 h3
  rw [← hvalues, Storage.cell?_values] at hcell
  exact ⟨h1, h2, h3, hcell⟩

/-- Once a machine is through the reload, the register holds what the cell held. -/
theorem reloaded (hm : m.Reachable) (hr : HasRegisters m.storage.registers.names)
    (hsize : calculatorResult < m.storage.memory.size) (description id : Value) {x : Int}
    (hx : m.storage.memory.value? calculatorResult = some x) (ho : ∀ op ∈ ops, op.restarts = false)
    (hsteps : 4 ≤ Machine.stepCount ops) :
    ((m.load (reload description id)).after ops).storage.registers.value? "R1" = some x := by
  have hfaultless := Machine.faultless_load hm.sound (complete_reload description id hr hsize)
  have hvalues := (hfaultless.run hm ho).2 hsteps
  have hin : "R1" ∈ (m.storage.values.setRegister "PC" 1).names := by
    rw [Values.names_setRegister, Storage.names_values]
    exact hr.first
  have hcell : (m.storage.values.setRegister "PC" 1).cell? calculatorResult = some x := by
    rw [Values.cell?_setRegister, Storage.cell?_values]
    exact hx
  rw [← Storage.register?_values, hvalues]
  show ((m.storage.values.setRegister "PC" 1).did _).register? "R1" = some x
  rw [Values.did_load_cell hin hcell]
  exact Values.register?_setRegister_self hin x

/-- The calculator can be made exactly if both operands can be written. Loaded into a machine with the three
registers and the cell for the result, whatever the machine did before, it takes sixteen steps, none of which
fails, and leaves the operands and the result in the registers and the result in the cell. It changes no
other register but the program counter, and no other cell. A later program that loads the cell finds the
result there. -/
theorem calculator_correct (hm : m.Reachable) (hr : HasRegisters m.storage.registers.names)
    (hsize : calculatorResult < m.storage.memory.size) (a b : Int) (o : Operation) :
    ((∃ program, calculatorFor a b o.symbol = .ok program) ↔
      Numeral.isWritable a = true ∧ Numeral.isWritable b = true) ∧
    ∀ program, calculatorFor a b o.symbol = .ok program →
      ∀ ops : List (Machine.Op τ), (∀ op ∈ ops, op.restarts = false) →
        let now := (m.load program).after ops
        (m.load program).outcomes ops =
          List.replicate (min (Machine.stepCount ops) 16) .stepped ++
            List.replicate (Machine.stepCount ops - 16) .finished ∧
        Framed m now ∧
        (16 ≤ Machine.stepCount ops → Calculated now a b o ∧
          ∀ description id, ∀ next : List (Machine.Op τ), (∀ op ∈ next, op.restarts = false) →
            4 ≤ Machine.stepCount next →
            ((now.load (reload description id)).after next).storage.registers.value? "R1" =
              some (o.result a b)) := by
  refine ⟨?_, fun program hprogram ops ho => ?_⟩
  · simp only [calculatorFor_ok_iff, exists_and_left, exists_eq', and_true]
  · obtain ⟨⟨ha, hb⟩, rfl⟩ := calculatorFor_ok_iff.1 hprogram
    have hcomplete := complete_calculator (o := o) ha hb hr hsize
    have hfaultless := Machine.faultless_load hm.sound hcomplete
    refine ⟨(hfaultless.run hm ho).1, framed_calculator hm (fun i hi => (hcomplete i hi).1) ho, fun hsteps => ?_⟩
    have hnow : ((m.load (calculator a b o)).after ops).Reachable := (hm.perform (.load _)).after ops
    have hcalculated := calculated hm hr hsize hfaultless ho hsteps
    obtain ⟨hnames, hmemory⟩ := hm.sound.layout hnow.sound ((m.load _).blank_after ops)
    refine ⟨hcalculated, fun description id next hnext hfour => ?_⟩
    exact reloaded hnow (by rw [hnames]; exact hr) (by rw [hmemory]; exact hsize) description id
      hcalculated.cell hnext hfour

end

theorem calculatorResult_lt_standard (ops : List (Machine.Op Rat)) :
    calculatorResult < (standard.after ops).storage.memory.size :=
  lt_trans (by decide) (layout_standard ops).2

/-- A quotient by zero is left alone before it is stored. -/
def abandonedRun : List (Machine.Op Rat) :=
  .load (calculator 7 0 .dividedBy) :: List.replicate 11 .step

/-- After that, the quotient of a negative number is rounded down, stored, and found again. -/
theorem calculator_correct_abandoned :
    let now := ((standard.after abandonedRun).load (calculator (-7) 2 .dividedBy)).after (List.replicate 16 .step)
    calculatorFor (-7) 2 "/" = .ok (calculator (-7) 2 .dividedBy) ∧
    Calculated now (-7) 2 .dividedBy ∧ Operation.dividedBy.result (-7) 2 = -4 ∧
    ((now.load (reload (.str "") (.str ""))).after (List.replicate 4 .step)).storage.registers.value? "R1" =
      some (-4) := by
  have hprogram : calculatorFor (-7) 2 "/" = .ok (calculator (-7) 2 .dividedBy) :=
    calculatorFor_ok_iff (o := .dividedBy).2 ⟨by decide +kernel, rfl⟩
  have hresult : Operation.dividedBy.result (-7) 2 = -4 := by
    unfold Operation.result
    rw [floor_div]
    decide
  obtain ⟨-, hrun⟩ := calculator_correct (reachable_standard.after abandonedRun) (layout_standard abandonedRun).1
    (calculatorResult_lt_standard abandonedRun) (-7) 2 .dividedBy
  obtain ⟨-, -, hcalculated⟩ := hrun _ hprogram (List.replicate 16 .step) fun _ => Machine.not_restarts_of_mem
  obtain ⟨hnow, hlater⟩ := hcalculated (Machine.stepCount_replicate 16).ge
  refine ⟨hprogram, hnow, hresult, ?_⟩
  rw [← hresult]
  exact hlater _ _ _ (fun _ => Machine.not_restarts_of_mem) (Machine.stepCount_replicate 4).ge

/-- The standard machine has all that the calculator needs, but a sum with an operand of one digit too many
cannot be made. -/
theorem calculator_refused_overlong :
    standard.Reachable ∧ HasRegisters standard.storage.registers.names ∧
    calculatorResult < standard.storage.memory.size ∧
    calculatorFor Numeral.writingLimit 1 "+" = .error .unwritable := by
  refine ⟨reachable_standard, (layout_standard []).1, calculatorResult_lt_standard [], ?_⟩
  have hlong : Numeral.isWritable Numeral.writingLimit = false := by decide +kernel
  unfold calculatorFor
  rw [hlong]
  rfl

end Samples

end PhaseMachine
