/-
What the traffic light stores. A light that changes sets the output register before it is stored, so the
output is the next light whatever the machine did before. Red without a car sets nothing: it stores what
the register held when the program was loaded, a fresh zero or the leftover of some other program.
-/
import PhaseMachine.Proofs.Samples.Calculator

namespace PhaseMachine

namespace Samples

/-! ## The next light -/

/-- The light after this one. Red stays as long as no car is waiting. -/
def Light.next (car : Bool) : Light → Light
  | red => if car then green else red
  | green => yellow
  | yellow => red

theorem Light.change?_eq (l : Light) (car : Bool) :
    l.change? car = if l = .red ∧ car = false then none else some (l.next car) := by
  cases l <;> cases car <;> rfl

theorem Light.isWritable_value (l : Light) : Numeral.isWritable l.value = true := by
  cases l <;> decide +kernel

/-! ## The program -/

/-- The output is the light that the program changes to, or else what the register held before. -/
theorem ran_trafficLight {v : Values} (hr : HasRegisters v.names) (hsize : lightOutput < v.memory.length)
    (l : Light) (car : Bool) :
    (v.ran 0 (trafficLight l car)).cell? lightOutput =
      match l.change? car with
      | some next => some next.value
      | none => v.register? "R3" := by
  obtain ⟨c, hc⟩ := Option.isSome_iff_exists.1 ((v.isSome_cell? lightOutput).2 ⟨by decide, hsize⟩)
  unfold trafficLight
  simp only [List.cons_append, List.nil_append]
  rw [ran_loads hr]
  let ready := (loaded v (if car then 1 else 0) l.value).setRegister "PC" 3
  cases hchange : l.change? car with
  | none =>
    obtain ⟨x, hx⟩ := Option.isSome_iff_exists.1 ((v.isSome_register? "R3").2 hr.third)
    have hthird : ready.register? "R3" = some x := by
      rw [Values.register?_setRegister_of_ne (by decide), third_loaded, hx]
    show (ready.did _).cell? lightOutput = _
    rw [Values.did_store hthird (by simp [ready, hc])]
    simp [Values.cell?_setCell, ready, hc, hx]
  | some next =>
    have hset : ready.did (setOutput next) = ready.setRegister "R3" next.value :=
      Values.did_mov_literal (by simpa [ready] using hr.third)
    have hthird : ((ready.setRegister "R3" next.value).setRegister "PC" 4).register? "R3" = some next.value := by
      rw [Values.register?_setRegister_of_ne (by decide)]
      exact Values.register?_setRegister_self (by simpa [ready] using hr.third) _
    show (((ready.did (setOutput next)).setRegister "PC" 4).did _).cell? lightOutput = _
    rw [hset, Values.did_store hthird (by simp [ready, hc])]
    simp [Values.cell?_setCell, ready, hc]

theorem complete_trafficLight (l : Light) (car : Bool) {names : List String} (hr : HasRegisters names) {size : Nat}
    (hsize : lightOutput < size) :
    ∀ i ∈ trafficLight l car, i.WellTyped ∧ i.Shown ∧ i.isComplete names size = true := by
  have hsensor : Numeral.isWritable (if car then 1 else 0) = true := by cases car <;> decide +kernel
  intro i hi
  simp only [trafficLight, List.mem_append, List.mem_cons, List.not_mem_nil, or_false, Option.mem_toList,
    Option.map_eq_some_iff] at hi
  rcases hi with ((rfl | rfl) | ⟨next, -, rfl⟩) | rfl
  · exact complete_load_literal hr.first hsensor
  · exact complete_load_literal hr.second l.isWritable_value
  · refine ⟨⟨rfl, rfl⟩, Instruction.shown_literal next.isWritable_value, ?_⟩
    simp [setOutput, Instruction.isComplete, Instruction.hasDestination, Instruction.hasOperand, Operand.isKnown,
      hr.third]
  · exact complete_store hr.third (by decide) hsize

/-! ## The machine -/

section

variable {τ : Type} [Quantity τ] {m : Machine τ} {ops : List (Machine.Op τ)}

/-- Once a machine is through the program, the output is there. -/
theorem output_trafficLight (hm : m.Reachable) (hr : HasRegisters m.storage.registers.names)
    (hsize : lightOutput < m.storage.memory.size) (l : Light) (car : Bool)
    (ho : ∀ op ∈ ops, op.restarts = false) (hsteps : 4 * (trafficLight l car).length ≤ Machine.stepCount ops) :
    ((m.load (trafficLight l car)).after ops).storage.memory.value? lightOutput =
      match l.change? car with
      | some next => some next.value
      | none => m.storage.registers.value? "R3" := by
  have hfaultless := Machine.faultless_load hm.sound (complete_trafficLight l car hr hsize)
  rw [← Storage.cell?_values, (hfaultless.run hm ho).2 hsteps, 
    ran_trafficLight (by rw [Storage.names_values]; exact hr) (by rw [Storage.length_values]; exact hsize),
    Storage.register?_values]

/-- The traffic light can be made for every light and sensor. Loaded into a machine with the three registers
and the cell for the output, whatever the machine did before, it takes four steps for each instruction, none
of which fails, and leaves the value of the next light as its output, except that red without a car leaves
what the output register held when the program was loaded. That is red only if it is zero. -/
theorem trafficLight_output (hm : m.Reachable) (hr : HasRegisters m.storage.registers.names)
    (hsize : lightOutput < m.storage.memory.size) (l : Light) (car : Bool) :
    trafficLightFor l.name car = .ok (trafficLight l car) ∧
    ∀ ops : List (Machine.Op τ), (∀ op ∈ ops, op.restarts = false) →
      let now := (m.load (trafficLight l car)).after ops
      let steps := 4 * (trafficLight l car).length
      (m.load (trafficLight l car)).outcomes ops =
        List.replicate (min (Machine.stepCount ops) steps) .stepped ++
          List.replicate (Machine.stepCount ops - steps) .finished ∧
      (steps ≤ Machine.stepCount ops →
        (l = .red ∧ car = false →
          now.storage.memory.value? lightOutput = m.storage.registers.value? "R3") ∧
        (now.storage.memory.value? lightOutput = some (l.next car).value ↔
          (l = .red ∧ car = false → m.storage.registers.value? "R3" = some Light.red.value))) := by
  refine ⟨by cases l <;> rfl, fun ops ho => ⟨?_, fun hsteps => ?_⟩⟩
  · exact ((Machine.faultless_load hm.sound (complete_trafficLight l car hr hsize)).run hm ho).1
  · rw [output_trafficLight hm hr hsize l car ho hsteps, l.change?_eq]
    by_cases hstay : l = .red ∧ car = false
    · rw [if_pos hstay]
      refine ⟨fun _ => rfl, ?_⟩
      obtain ⟨rfl, rfl⟩ := hstay
      simp [Light.next]
    · rw [if_neg hstay]
      exact ⟨fun h => absurd h hstay, fun _ h => absurd h hstay, fun _ => rfl⟩

end

/-- A sum that leaves eight in the output register. -/
def sumRun : List (Machine.Op Rat) :=
  .load (calculator 5 3 .plus) :: List.replicate 16 .step

theorem third_sumRun : (standard.after sumRun).storage.registers.value? "R3" = some 8 := by
  have hfive : Numeral.isWritable 5 = true := by decide +kernel
  have hthree : Numeral.isWritable 3 = true := by decide +kernel
  have hr : HasRegisters standard.storage.registers.names := (layout_standard []).1
  have hsize : calculatorResult < standard.storage.memory.size := calculatorResult_lt_standard []
  have hfaultless : (standard.load (calculator 5 3 .plus)).Faultless :=
    Machine.faultless_load reachable_standard.sound (complete_calculator hfive hthree hr hsize)
  have hcalculated : Calculated ((standard.load (calculator 5 3 .plus)).after (List.replicate 16 .step)) 5 3 .plus :=
    calculated reachable_standard hr hsize hfaultless (fun _ => Machine.not_restarts_of_mem)
      (Machine.stepCount_replicate 16).ge
  rw [sumRun, Machine.after_cons, Machine.perform, hcalculated.third]
  rfl

/-- After that, green without a car still turns yellow. -/
theorem trafficLight_output_after_sum :
    (((standard.after sumRun).load (trafficLight .green false)).after
        (List.replicate 16 .step)).storage.memory.value? lightOutput =
      some Light.yellow.value := by
  obtain ⟨hr, hsize⟩ := layout_standard sumRun
  obtain ⟨-, hrun⟩ := trafficLight_output (reachable_standard.after sumRun) hr hsize .green false
  obtain ⟨-, hout⟩ := hrun (List.replicate 16 .step) fun _ => Machine.not_restarts_of_mem
  exact (hout (Machine.stepCount_replicate 16).ge).2.2 (by decide)

/-- But red without a car comes to its end with the sum as its output, which is not red. -/
theorem trafficLight_leaves_sum :
    (standard.after sumRun).Reachable ∧ HasRegisters (standard.after sumRun).storage.registers.names ∧
    lightOutput < (standard.after sumRun).storage.memory.size ∧
    trafficLightFor "RED" false = .ok (trafficLight .red false) ∧
    ((standard.after sumRun).load (trafficLight .red false)).outcomes (List.replicate 13 .step) =
      List.replicate 12 .stepped ++ [.finished] ∧
    (((standard.after sumRun).load (trafficLight .red false)).after
        (List.replicate 13 .step)).storage.memory.value? lightOutput =
      some 8 ∧
    some 8 ≠ some (Light.red.next false).value := by
  have hm := reachable_standard.after sumRun
  obtain ⟨hr, hsize⟩ := layout_standard sumRun
  have hcount : Machine.stepCount (List.replicate 13 (.step : Machine.Op Rat)) = 13 :=
    Machine.stepCount_replicate 13
  have hsteps : 12 ≤ Machine.stepCount (List.replicate 13 (.step : Machine.Op Rat)) := by
    rw [hcount]
    decide
  have hrun := (Machine.faultless_load hm.sound (complete_trafficLight .red false hr hsize)).run hm
    fun _ => Machine.not_restarts_of_mem (n := 13)
  rw [hcount] at hrun
  have hout := output_trafficLight hm hr hsize .red false (fun _ => Machine.not_restarts_of_mem) hsteps
  exact ⟨hm, hr, hsize, rfl, hrun.1, hout.trans third_sumRun, by decide⟩

end Samples

end PhaseMachine
