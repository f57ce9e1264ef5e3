/-
Attempts are atomic. All the checks of an opcode come before its first change, and the changes find all
they need, so an attempt in order is the attempt that looks everything up first: what stops it leaves the
machine and the recorded changes as they were. Whether it stops is plain from the instruction, the names of
the registers and the size of memory.
-/
import PhaseMachine.Proofs.Execution.Complete
import PhaseMachine.Proofs.Machine.InOrder
import PhaseMachine.Proofs.Machine.Stall

namespace PhaseMachine.Machine

/-! ## Effects -/

namespace Turn

variable {τ : Type} [Quantity τ]

/-- A turn with signals sent and reported. -/
def sending (t : Turn τ) (signals : List Signal) : Turn τ :=
  { t with machine := t.machine.sendAll signals, log := t.log ++ signals.map Event.transferred }

/-- A turn with an effect carried out, its changes recorded and its events reported. -/
def carrying (t : Turn τ) (e : Effect) : Turn τ :=
  sending {
    machine := { t.machine with storage := e.storage }
    registerChanges := t.registerChanges ++ e.registerChanges
    memoryChanges := t.memoryChanges ++ e.memoryChanges
    log := t.log ++ e.evicted.toList.map Event.evicted } e.signals

@[simp]
theorem sending_sending (t : Turn τ) (first second : List Signal) :
    (t.sending first).sending second = t.sending (first ++ second) := by
  simp only [sending, sendAll, List.foldl_append, List.map_append, List.append_assoc]

/-- A turn and what another one adds to it. -/
def also (t u : Turn τ) : Turn τ :=
  {
    machine := u.machine
    registerChanges := t.registerChanges ++ u.registerChanges
    memoryChanges := t.memoryChanges ++ u.memoryChanges
    log := t.log ++ u.log
  }

theorem carrying_eq {i : Instruction} (hi : i.isIneffective = false) (t : Turn τ) (e : Effect) :
    t.carrying e = t.also (t.machine.attempted i (.done e)) := by
  simp [carrying, sending, also, attempted, Instruction.attemptLog, Instruction.effectLog, hi]

end Turn

namespace InOrder

variable {τ α β : Type} [Quantity τ] {x : InOrder τ α} {t : Turn τ} {i : Instruction}

theorem outcome_transfer (signal : Signal) : (transfer signal).outcome t = (.ok (), t.sending [signal]) :=
  rfl

theorem outcome_assign {d : Register} (hd : t.machine.storage.registers.find? d.name = some d) {part : Part}
    {o : Option Operand} {source : Source} (hs : t.machine.storage.operandSource part o = .ok source) :
    (assign d.name o source.value).outcome t =
      (.ok (), t.carrying (Action.setEffect t.machine.storage d source)) := by
  refine next (writeRegister_of_find _ hd) ((outcome_transfer _).trans ?_)
  rw [operandName_of_source hs]
  simp [Turn.carrying, Action.setEffect]

theorem outcome_loadFrom {d : Register} (hd : t.machine.storage.registers.find? d.name = some d) {address : Int}
    {c : Cell} (hc : t.machine.storage.memory.find? address = some c) (asFlag : Bool) :
    (loadFrom d.name address asFlag).outcome t =
      (.ok (), t.carrying (Action.loadEffect t.machine.storage t.machine.cycle d address asFlag)) := by
  refine next (outcome_askCache _) (next (readCell_of_find asFlag hc) (next (writeRegister_of_find _ hd) ?_))
  simp only [Turn.carrying, Action.loadEffect, List.append_nil]
  split
  · exact outcome_transfer _
  · refine next (outcome_transfer _) ((outcome_transfer _).trans ?_)
    rw [Turn.sending_sending]
    rfl

theorem outcome_storeTo (source : Register) {address : Int} {c : Cell}
    (hc : t.machine.storage.memory.find? address = some c) :
    (storeTo source.name address source.value).outcome t =
      (.ok (), t.carrying (Action.storeEffect t.machine.storage t.machine.cycle source address c.value)) := by
  refine next (writeCell_of_find _ hc) (next (outcome_askCache _)
    (next (outcome_transfer _) (next (outcome_transfer _) ?_)))
  simp only [Turn.carrying, Action.storeEffect, List.append_nil, Turn.sending_sending]
  cases (t.machine.storage.cache.update address source.value t.machine.cycle).2.hit with
  | true => rfl
  | false =>
    refine (outcome_transfer _).trans ?_
    rw [Turn.sending_sending]
    rfl

theorem outcome_result {d : Register} (hd : t.machine.storage.registers.find? d.name = some d) {a b : Source}
    (ha : t.machine.storage.operandSource .operand1 i.operand1 = .ok a)
    (hb : t.machine.storage.operandSource .operand2 i.operand2 = .ok b) (f : Int → Int → Int) :
    (result i f d.name a.value b.value).outcome t =
      (.ok (), t.carrying (Action.computeEffect t.machine.storage d a b (f a.value b.value))) := by
  have hwrite : (t.machine.storage.registers.write d.name (f a.value b.value)).names =
      t.machine.storage.registers.names := by
    rw [RegisterBank.write, RegisterBank.names_modify]
  refine next (writeRegister_of_find _ hd) (next (activate_of_source ha hwrite)
    (next (activate_of_source hb ((names_activate _ a).trans hwrite)) ?_))
  refine next (outcome_transfer _) (next (outcome_transfer _) (next (outcome_transfer _)
    ((outcome_transfer _).trans ?_)))
  rw [operandName_of_source ha, operandName_of_source hb]
  simp only [Turn.carrying, Action.computeEffect, Option.toList_none, List.map_nil, List.append_nil,
    Turn.sending_sending]
  rfl

/-! ## Instructions -/

/-- Work carries an action out, or stops where none was found. -/
def CarriesOut (x : InOrder τ Unit) (i : Instruction) (t : Turn τ) (y : Except Fault Action) : Prop :=
  x.outcome t = match y with
    | .ok a => (.ok (), t.also (t.machine.attempted i (.done (a.effect t.machine.storage t.machine.cycle))))
    | .error w => (.error (stopFor i w), t)

theorem carriesOut_ok {x : InOrder τ Unit} {a : Action} (hi : i.isIneffective = false)
    (h : x.outcome t = (.ok (), t.carrying (a.effect t.machine.storage t.machine.cycle))) :
    CarriesOut x i t (.ok a) := by
  rw [Turn.carrying_eq hi] at h
  exact h

theorem Checks.bind {y : Except Fault β} {p : β → α} {f : α → InOrder τ Unit} {g : β → Except Fault Action}
    (hx : Checks x i t y p) (hf : ∀ b, y = .ok b → CarriesOut (f (p b)) i t (g b)) :
    CarriesOut (x >>= f) i t (y >>= g) := by
  unfold Checks at hx
  cases y with
  | ok b => exact next hx (hf b rfl)
  | error w => exact bind_of_error hx

theorem move_carriesOut (hi : i.isIneffective = false) (t : Turn τ) :
    CarriesOut (move i) i t (i.moveAction t.machine.storage) :=
  (requireRegister_checks .destination i.destination).bind fun _ hd =>
    (resolveOperand_checks .operand1 i.operand1).bind fun _ hs =>
      carriesOut_ok hi (outcome_assign (Storage.namedRegister_ok hd).2 hs)

theorem load_carriesOut (hi : i.isIneffective = false) (t : Turn τ) :
    CarriesOut (load i) i t (i.loadAction t.machine.storage) := by
  have hcheck := requireCell_checks (i := i) (t := t)
  unfold load Instruction.loadAction
  cases ha : i.address with
  | absent => exact move_carriesOut hi t
  | _ =>
    rw [ha] at hcheck
    exact (requireRegister_checks .destination i.destination).bind fun _ hd =>
      hcheck.bind fun _ hc =>
        carriesOut_ok hi (outcome_loadFrom (Storage.namedRegister_ok hd).2 (Storage.addressedCell_ok hc) _)

theorem store_carriesOut (hi : i.isIneffective = false) (t : Turn τ) :
    CarriesOut (store i) i t (i.storeAction t.machine.storage) :=
  (requireRegister_checks .destination i.destination).bind fun d _ =>
    requireCell_checks.bind fun _ hc => carriesOut_ok hi (outcome_storeTo d (Storage.addressedCell_ok hc))

theorem compute_carriesOut (hi : i.isIneffective = false) (f : Int → Int → Int) (t : Turn τ) :
    CarriesOut (compute i f) i t (i.computeAction f t.machine.storage) :=
  (requireRegister_checks .destination i.destination).bind fun _ hd =>
    (resolveOperand_checks .operand1 i.operand1).bind fun _ ha =>
      (resolveOperand_checks .operand2 i.operand2).bind fun _ hb =>
        carriesOut_ok hi (outcome_result (Storage.namedRegister_ok hd).2 ha hb f)

/-- What has no effect is only reported. -/
theorem report_carriesOut (hi : i.isIneffective = true) (t : Turn τ) :
    CarriesOut (report (.ineffective i.opcode)) i t (.ok .nothing) := by
  show (Except.ok (), { t with log := t.log ++ [Event.ineffective i.opcode] }) = _
  simp [Turn.also, attempted, Instruction.attemptLog, Instruction.effectLog, hi, Action.effect, sendAll]

/-- Every opcode is carried out in order as its action is. -/
theorem carryOut_carriesOut (i : Instruction) (t : Turn τ) :
    CarriesOut (carryOut i) i t (i.action t.machine.storage) := by
  rcases i with ⟨o⟩
  cases o with
  | load => exact load_carriesOut rfl t
  | store => exact store_carriesOut rfl t
  | mov => exact move_carriesOut rfl t
  | add => exact compute_carriesOut rfl _ t
  | sub => exact compute_carriesOut rfl _ t
  | mul => exact compute_carriesOut rfl _ t
  | div => exact compute_carriesOut rfl _ t
  | _ => exact report_carriesOut rfl t

end InOrder

/-! ## Attempts -/

/-- What comes of an attempt within a turn. -/
def Turn.upon {τ : Type} [Quantity τ] (t : Turn τ) (i : Instruction) :
    Except Failure Attempt → Except Stop Bool × Turn τ
  | .ok (.done e) => (.ok true, t.also (t.machine.attempted i (.done e)))
  | .ok (.skipped x) => (.ok false, t.also (t.machine.attempted i (.skipped x)))
  | .error f => (.error (.failure f), t)

variable {τ : Type} [Quantity τ]

/-- An attempt in order is the attempt that looks everything up before it does anything. -/
theorem InOrder.outcome_attempt (i : Instruction) (strict : Bool) (t : Turn τ) :
    (attempt i strict).outcome t = t.upon i (i.attempt strict t.machine.storage t.machine.cycle) := by
  have hcarry := carryOut_carriesOut i t
  unfold CarriesOut at hcarry
  cases ha : i.action t.machine.storage with
  | ok a =>
    rw [ha] at hcarry
    rw [Instruction.attempt_of_ok ha]
    exact catch_of_ok (next hcarry rfl)
  | error w =>
    rw [ha] at hcarry
    rw [Instruction.attempt_of_error ha]
    refine (catch_of_error (bind_of_error hcarry)).trans ?_
    cases w with
    | misuse u => rfl
    | flaw w =>
      unfold stopFor Instruction.response
      cases hid : i.id.isWritable with
      | false => rfl
      | true =>
        cases strict with
        | true => rfl
        | false =>
          show (Except.ok false, { t with log := t.log ++ [Event.skipped (i.malformed w)] }) = _
          simp [Turn.upon, Turn.also, attempted, Instruction.attemptLog]

namespace InOrder

variable {i : Instruction}

theorem outcome_complete (hi : i.WellTyped) {t : Turn τ}
    (hc : i.isComplete t.machine.storage.registers.names t.machine.storage.memory.size = true) (strict : Bool) :
    ∃ e, i.execute t.machine.storage t.machine.cycle = .ok e ∧
      (attempt i strict).outcome t = (.ok true, t.also (t.machine.attempted i (.done e))) := by
  rcases Instruction.action_decides (s := t.machine.storage) hi with ⟨-, a, ha⟩ | ⟨hc', -⟩
  · refine ⟨a.effect t.machine.storage t.machine.cycle, by rw [Instruction.execute, ha]; rfl, ?_⟩
    rw [outcome_attempt, Instruction.attempt_of_ok ha]
    rfl
  · rw [hc] at hc'
    cases hc'

theorem outcome_incomplete (hi : i.WellTyped) (hid : i.id.isWritable = true) {t : Turn τ}
    (hc : i.isComplete t.machine.storage.registers.names t.machine.storage.memory.size = false) :
    ∃ w, (attempt i false).outcome t = (.ok false, { t with log := t.log ++ [.skipped (i.malformed w)] }) ∧
      (attempt i true).outcome t = (.error (.failure (.malformed (i.malformed w))), t) := by
  rcases Instruction.action_decides (s := t.machine.storage) hi with ⟨hc', -⟩ | ⟨-, w, ha⟩
  · rw [hc] at hc'
    cases hc'
  · refine ⟨w, ?_⟩
    rw [outcome_attempt, outcome_attempt, Instruction.attempt_of_error ha, Instruction.attempt_of_error ha]
    simp [Instruction.response, hid, Turn.upon, Turn.also, attempted, Instruction.attemptLog]

/-- An attempt in order is the one that the machine makes, and carries a well-typed instruction out exactly
if it is complete. If not, it answers so and reports that it was passed over, or stops as malformed where
attempts are strict; the machine with its storage, bus and timers and the recorded changes are as before.
Which it is hangs on the instruction, the names of the registers and the size of memory. -/
theorem attempt_atomic (hi : i.WellTyped) (hid : i.id.isWritable = true) (t : Turn τ) :
    (∀ strict, (attempt i strict).outcome t = t.upon i (i.attempt strict t.machine.storage t.machine.cycle)) ∧
    (i.isComplete t.machine.storage.registers.names t.machine.storage.memory.size = true → ∀ strict,
      ∃ e, i.execute t.machine.storage t.machine.cycle = .ok e ∧
        (attempt i strict).outcome t = (.ok true, t.also (t.machine.attempted i (.done e)))) ∧
    (i.isComplete t.machine.storage.registers.names t.machine.storage.memory.size = false →
      ∃ w, (attempt i false).outcome t = (.ok false, { t with log := t.log ++ [.skipped (i.malformed w)] }) ∧
        (attempt i true).outcome t = (.error (.failure (.malformed (i.malformed w))), t)) ∧
    ∀ u : Turn τ, (∀ name, name ∈ u.machine.storage.registers.names ↔ name ∈ t.machine.storage.registers.names) →
      u.machine.storage.memory.size = t.machine.storage.memory.size →
        ((attempt i false).outcome u).1 = ((attempt i false).outcome t).1 := by
  refine ⟨fun strict => outcome_attempt i strict t, outcome_complete hi, outcome_incomplete hi hid,
    fun u hnames hsize => ?_⟩
  have hanswer : ∀ v : Turn τ, ((attempt i false).outcome v).1 =
      .ok (i.isComplete v.machine.storage.registers.names v.machine.storage.memory.size) := by
    intro v
    cases hc : i.isComplete v.machine.storage.registers.names v.machine.storage.memory.size with
    | true =>
      obtain ⟨e, -, he⟩ := outcome_complete hi hc false
      rw [he]
    | false =>
      obtain ⟨w, hw, -⟩ := outcome_incomplete hi hid hc
      rw [hw]
  rw [hanswer, hanswer, hsize, i.isComplete_congr hnames]

/-- A sum without its second operand, in the middle of a turn on a machine that ran before. -/
theorem attempt_atomic_sum :
    let i : Instruction := { opcode := .add, operand1 := some (.literal 1), destination := .given "R1" }
    let t : Turn Rat := { machine := (small false true).after demotingRun, registerChanges := [⟨"PC", 4, 5⟩] }
    i.WellTyped ∧ i.id.isWritable = true ∧
      i.isComplete t.machine.storage.registers.names t.machine.storage.memory.size = false ∧
      ∃ w, (attempt i false).outcome t = (.ok false, { t with log := t.log ++ [.skipped (i.malformed w)] }) ∧
        (attempt i true).outcome t = (.error (.failure (.malformed (i.malformed w))), t) := by
  intro i t
  have hi : i.WellTyped := by decide
  have hid : i.id.isWritable = true := rfl
  have hc : i.isComplete t.machine.storage.registers.names t.machine.storage.memory.size = false := by
    decide +kernel
  exact ⟨hi, hid, hc, (attempt_atomic hi hid t).2.2.1 hc⟩

end InOrder

end PhaseMachine.Machine
