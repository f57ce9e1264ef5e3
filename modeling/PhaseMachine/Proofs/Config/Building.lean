/-
Where mistakes surface. A configuration gives a machine or names a mistake exactly if it is well shaped:
if each part of it that reading and building come to is. What is left to fail otherwise in building are
the operands of a calculator, which must not be infinite, and opcodes, samples and operands of a value
that is too long to be shown.
-/
import PhaseMachine.Proofs.Config.Reading

namespace PhaseMachine.Config

open Orderly

/-! ## Entries under a name -/

theorem sameKey_str (k : Value) (s : String) : k.sameKey (.str s) = true ↔ k = .str s := by
  cases k <;> simp [Value.sameKey, Value.integer?]

theorem field?_insert_self (entries : Entries) (name : String) (v : Value) :
    Value.field? (Value.insert (.str name) v entries) name = some v := by
  unfold Value.field?
  induction entries with
  | nil => simp [Value.insert, Value.lookup, sameKey_str]
  | cons e entries ih =>
    obtain ⟨k, w⟩ := e
    by_cases hk : k = .str name
    · simp [Value.insert, Value.lookup, sameKey_str, hk]
    · simp [Value.insert, Value.lookup, sameKey_str, hk, ih]

theorem field?_insert_of_ne (entries : Entries) {name other : String} (hne : name ≠ other) (v : Value) :
    Value.field? (Value.insert (.str name) v entries) other = Value.field? entries other := by
  unfold Value.field?
  induction entries with
  | nil => simp [Value.insert, Value.lookup, sameKey_str, hne]
  | cons e entries ih =>
    obtain ⟨k, w⟩ := e
    by_cases hk : k = .str name
    · simp [Value.insert, Value.lookup, sameKey_str, hk, hne]
    · simp [Value.insert, Value.lookup, sameKey_str, hk, ih]

/-! ## What reading accepts -/

/-- Entries of an instruction as reading hands them on. -/
structure Accepted (entries : Entries) : Prop where
  opcode : (Value.field? entries "opcode").isSome = true
  address : ∀ a, Value.field? entries "address" = some a → ∃ n, a = .int n

theorem readEntries_ok {index : Nat} {v : Value} {entries : Entries} (h : readEntries index v = .ok entries) :
    Accepted entries := by
  unfold readEntries at h
  split at h
  · next given =>
    split at h
    · cases h
    · next hsome =>
      split at h
      · split at h
        · obtain ⟨n, -, h⟩ := bind_ok h
          cases h
          refine ⟨?_, fun a ha => ?_⟩
          · rw [field?_insert_of_ne given (by decide)]
            exact Option.isSome_iff_ne_none.2 fun hn => hsome (by rw [hn]; rfl)
          · rw [field?_insert_self] at ha
            cases ha
            exact ⟨n, rfl⟩
        · next hnone =>
          cases h
          refine ⟨Option.isSome_iff_ne_none.2 fun hn => hsome (by rw [hn]; rfl), fun a ha => ?_⟩
          rw [hnone] at ha
          cases ha
      · split at h <;> cases h
  · cases h

/-- A plan as reading hands it on. -/
structure ProgramPlan.Read (p : ProgramPlan) : Prop where
  parameters : ∃ entries, p.parameters = .map entries
  instructions : p.sample = none → ∃ accepted : List Entries, p.instructions = .list (accepted.map Value.map) ∧
    ∀ e ∈ accepted, Accepted e

theorem readProgram_ok {v : Value} {p : ProgramPlan} (h : readProgram v = .ok p) : p.Read := by
  unfold readProgram at h
  split at h
  · next entries =>
    split at h
    · cases h
    · cases h
    · cases h
      exact ⟨⟨_, rfl⟩, fun hn => by cases hn⟩
    · obtain ⟨items, -, h⟩ := bind_ok h
      obtain ⟨accepted, ha, h⟩ := bind_ok h
      cases h
      refine ⟨⟨_, rfl⟩, fun _ => ⟨accepted, rfl, fun e he => ?_⟩⟩
      obtain ⟨q, -, hq⟩ := mem_of_mapM_ok ha he
      exact readEntries_ok hq
  · cases h

/-- The setup in the entries of a system: that of its machine, or the default. -/
def readMachinePart (entries : Entries) : Except Failure (Machine.Setup Float) :=
  (positive? entries "machine").elim (readSetup []) readMachine

def readProgramPart (entries : Entries) : Except Failure (Option ProgramPlan) :=
  (positive? entries "program").elim (.ok none) fun p => (readProgram p).map some

theorem readSystem_map (entries : Entries) :
    readSystem (.map entries) = do
      let setup ← readMachinePart entries
      let program ← readProgramPart entries
      return { setup, program } := by
  unfold readSystem readMachinePart readProgramPart
  cases entries with
  | nil => rfl
  | cons e rest =>
    simp only [Value.truthy, List.isEmpty_cons]
    cases positive? (e :: rest) "machine" with
    | none =>
      cases positive? (e :: rest) "program" with
      | none => rfl
      | some p =>
        simp only [Bool.not_false, Bool.not_true, Bool.false_eq_true, if_false, Option.elim]
        cases readProgram p <;> rfl
    | some m =>
      cases positive? (e :: rest) "program" with
      | none => rfl
      | some p =>
        simp only [Bool.not_false, Bool.not_true, Bool.false_eq_true, if_false, Option.elim]
        cases readProgram p <;> rfl

theorem readProgramPart_ok {entries : Entries} {p : ProgramPlan} (h : readProgramPart entries = .ok (some p)) :
    p.Read := by
  unfold readProgramPart at h
  cases hp : positive? entries "program" with
  | none => rw [hp] at h; cases h
  | some v =>
    rw [hp] at h
    cases hr : readProgram v with
    | error f => simp [hr, Except.map] at h
    | ok plan =>
      simp only [Option.elim_some, hr, Except.map, Except.ok.injEq, Option.some.injEq] at h
      exact h ▸ readProgram_ok hr

theorem readSystem_ok {v : Value} {s : System} (h : readSystem v = .ok s) {p : ProgramPlan}
    (hp : s.program = some p) : p.Read := by
  cases v with
  | map entries =>
    rw [readSystem_map] at h
    obtain ⟨setup, -, h⟩ := bind_ok h
    obtain ⟨program, hprogram, h⟩ := bind_ok h
    cases h
    exact readProgramPart_ok (hprogram.trans (congrArg _ hp))
  | _ =>
    -- no other value has a program in it
    unfold readSystem at h
    split at h
    · obtain ⟨setup, -, h⟩ := bind_ok h
      cases h
      cases hp
    · cases h

/-! ## Samples -/

/-- An operand must not be infinite. -/
def operandShaped : Value → Bool
  | .float x => x.isNaN || !x.isInf
  | _ => true

variable {p : ProgramPlan} {entries : Entries}

theorem integerParameter_eq (h : p.parameters = .map entries) (sample name : String) (default : Int) :
    integerParameter p sample name default = (Value.fieldD entries name (.int default)).toInteger.mapError fun
      | .infinite => .overflow Value.IntegerRefusal.infinite.message
      | r => .refused (.parameters sample (.number r)) := by
  unfold integerParameter parameter
  rw [h]
  rfl

theorem integerParameter_orderly (h : p.parameters = .map entries) (sample name : String) (default : Int) :
    Orderly (integerParameter p sample name default) ↔
      operandShaped (Value.fieldD entries name (.int default)) = true := by
  rw [integerParameter_eq h]
  cases Value.fieldD entries name (.int default) with
  | float x =>
    unfold Value.toInteger operandShaped
    dsimp only
    split
    · next hn => exact iff_of_true (.refused _) (by rw [hn, Bool.true_or])
    · next hn =>
      rw [Bool.not_eq_true] at hn
      rw [hn, Bool.false_or]
      split
      · next hi => exact error_iff.trans (by simp [hi])
      · next hi => exact iff_of_true (.ok _) (by simp [hi])
  | str s =>
    refine iff_of_true ?_ rfl
    show Orderly (((Numeral.read 10 s).mapError Value.IntegerRefusal.numeral).mapError _)
    cases Numeral.read 10 s with
    | ok n => exact .ok n
    | error r => exact .refused _
  | bool b => exact ok_iff _
  | int n => exact ok_iff _
  | _ => exact iff_of_true (.refused _) rfl

theorem textParameter_orderly (h : p.parameters = .map entries) (sample name default : String) :
    Orderly (textParameter p sample name default) := by
  unfold textParameter parameter
  rw [h]
  show Orderly (if (Value.fieldD entries name (.str default)).isWritable = true then _ else _)
  split
  · exact .ok _
  · exact refuse_of_nil rfl

/-- The operands of a calculator, one after the other. -/
def calculatorShaped : Value → Bool
  | .map entries =>
    let first := Value.fieldD entries "operand1" (.int 5)
    operandShaped first && after first.toInteger fun _ => operandShaped (Value.fieldD entries "operand2" (.int 3))
  | _ => false

theorem buildSample_orderly (sample : String) (r : Except Samples.Refusal Program) :
    Orderly (buildSample sample r) :=
  .mapError r _

theorem buildCalculator_orderly (h : p.parameters = .map entries) :
    Orderly (buildCalculator p) ↔ calculatorShaped p.parameters = true := by
  have hrest : ∀ a b : Int, Orderly (do
      let operation ← textParameter p calculatorName "operation" "+"
      buildSample calculatorName (Samples.calculatorFor a b operation)) := fun a b =>
    (textParameter_orderly h _ _ _).bind fun operation _ => buildSample_orderly _ _
  have hsecond : ∀ a : Int, Orderly (do
      let b ← integerParameter p calculatorName "operand2" 3
      let operation ← textParameter p calculatorName "operation" "+"
      buildSample calculatorName (Samples.calculatorFor a b operation)) ↔
        operandShaped (Value.fieldD entries "operand2" (.int 3)) = true := fun a =>
    (bind_iff_left fun b _ => hrest a b).trans (integerParameter_orderly h _ _ _)
  refine (bind_iff (integerParameter_orderly h _ _ _) fun a _ => hsecond a).trans ?_
  rw [integerParameter_eq h, after_mapError, h]
  rfl

theorem buildTrafficLight_orderly (h : p.parameters = .map entries) : Orderly (buildTrafficLight p) := by
  refine (textParameter_orderly h _ _ _).bind fun state _ => ?_
  refine Orderly.bind ?_ fun sensor _ => buildSample_orderly _ _
  unfold parameter
  rw [h]
  exact .ok _

/-! ## Instructions -/

/-- The opcode of an instruction has to be shown. -/
def opcodeShaped : Value → Bool
  | .map entries => (Value.fieldD entries "opcode" .null).isWritable
  | _ => false

theorem buildInstruction_orderly (h : Accepted entries) (index : Nat) :
    Orderly (buildInstruction index (.map entries)) ↔ opcodeShaped (.map entries) = true := by
  obtain ⟨opcode, ho⟩ := Option.isSome_iff_exists.1 h.opcode
  have hshown : opcodeShaped (.map entries) = opcode.isWritable := by
    show (Value.fieldD entries "opcode" .null).isWritable = _
    rw [Value.fieldD, ho]
    rfl
  rw [hshown]
  unfold buildInstruction
  rw [show entriesOf (.map entries) = pure entries from rfl, pure_bind, ho]
  dsimp only
  refine (bind_iff_left fun text _ => ?_).trans (textOf_iff opcode)
  split
  · exact refuse_of_nil rfl
  · exact .mapError _ _

/-! ## Systems -/

/-- A sample is known or shown. The instructions are built one after the other. -/
def planShaped (p : ProgramPlan) : Bool :=
  match p.sample with
  | none => after (elements p.instructions) fun items =>
    inTurn (fun q => buildInstruction q.2 q.1) (fun q => opcodeShaped q.1) items.zipIdx
  | some (.str name) => if name = calculatorName then calculatorShaped p.parameters else true
  | some v => v.isWritable

theorem buildProgram_orderly (h : p.Read) : Orderly (buildProgram p) ↔ planShaped p = true := by
  obtain ⟨entries, hp⟩ := h.parameters
  unfold buildProgram planShaped
  cases hs : p.sample with
  | none =>
    obtain ⟨accepted, hi, ha⟩ := h.instructions hs
    dsimp only
    unfold buildInstructions
    rw [hi]
    refine mapM_iff fun q hq => ?_
    obtain ⟨e, he, heq⟩ := List.mem_map.1 (List.fst_mem_of_mem_zipIdx hq)
    rw [← heq]
    exact buildInstruction_orderly (ha e he) q.2
  | some sample =>
    cases sample with
    | str name =>
      dsimp only
      split
      · exact buildCalculator_orderly hp
      · refine iff_of_true ?_ rfl
        split
        · exact buildTrafficLight_orderly hp
        · exact (refuse_iff _).2 rfl
    | _ => exact (refuse_iff _).trans (by simp [Refusal.values])

/-- Machine and program are read one after the other. -/
def systemShaped : Value → Bool
  | .map entries =>
    (positive? entries "machine").all machineShaped &&
    after (readMachinePart entries) fun _ => (positive? entries "program").all programShaped
  | _ => true

theorem readSystem_orderly (v : Value) : Orderly (readSystem v) ↔ systemShaped v = true := by
  cases v with
  | map entries =>
    rw [readSystem_map]
    refine bind_iff ?_ fun setup _ => (bind_iff_left fun _ _ => .ok _).trans ?_
    · unfold readMachinePart
      cases positive? entries "machine" with
      | none => exact iff_of_true (.ok _) rfl
      | some m => exact readMachine_orderly m
    · unfold readProgramPart
      cases positive? entries "program" with
      | none => exact ok_iff none
      | some p => exact (map_iff (readProgram p) some).trans (readProgram_orderly p)
  | _ =>
    refine iff_of_true ?_ rfl
    unfold readSystem
    split
    · exact .ok _
    · exact refuse_of_nil rfl

/-- The program is built once there is a machine. -/
def buildShaped (s : System) : Bool :=
  after (Machine.ofSetup s.setup 0.0) fun _ => s.program.all planShaped

/-- Whether there is a machine for a setup does not depend on the clock. -/
theorem after_ofSetup (s : Machine.Setup Float) (clock clock' : Float) (shaped : Bool) :
    after (Machine.ofSetup s clock) (fun _ => shaped) = after (Machine.ofSetup s clock') fun _ => shaped := by
  unfold Machine.ofSetup
  cases s.missing? with
  | some name => rfl
  | none =>
    dsimp only
    split
    · rfl
    · cases s.blank <;> rfl

theorem build_orderly {v : Value} {s : System} (h : readSystem v = .ok s) (clock : Float) :
    Orderly (build s clock) ↔ buildShaped s = true := by
  unfold buildShaped
  rw [after_ofSetup s.setup 0.0 clock, ← after_mapError (Machine.ofSetup s.setup clock) fun r =>
    Failure.refused (.machine r), ← Bool.true_and (after _ _)]
  refine bind_iff (iff_of_true (.mapError _ _) rfl) fun m _ => ?_
  cases hp : s.program with
  | none => exact ok_iff _
  | some plan => exact (bind_iff_left fun _ _ => .ok _).trans (buildProgram_orderly (readSystem_ok h hp))

/-! ## Configurations -/

/-- The machine that a value configures at a clock reading. -/
def configure (v : Value) (clock : Float) : Except Failure Built := do
  build (← readSystem v) clock

/-- Whether every part that reading and building come to has the right shape. -/
def wellShaped (v : Value) : Bool :=
  systemShaped v && after (readSystem v) buildShaped

/-- A value configures a machine, or is refused for a mistake in it, exactly if it is well shaped. -/
theorem configure_orderly_iff (v : Value) (clock : Float) :
    ((∃ b, configure v clock = .ok b) ∨ ∃ r, configure v clock = .error (.refused r)) ↔ wellShaped v = true :=
  bind_iff (readSystem_orderly v) fun _ h => build_orderly h clock

/-- A memory size with the mark of base 16 and no digits of it. -/
def markedSize : Value :=
  .map [(.str "machine", .map [(.str "memory_size", .str "0xzz")])]

/-- That size is no integer, but it is not refused as one; without the mark it would be. -/
theorem configure_disorderly_marked :
    configure markedSize 0.0 = .error (.numeral (.notANumeral 16 "0xzz")) ∧
    ¬ ((∃ b, configure markedSize 0.0 = .ok b) ∨ ∃ r, configure markedSize 0.0 = .error (.refused r)) ∧
    configure (.map [(.str "machine", .map [(.str "memory_size", .str "zz")])]) 0.0 =
      .error (.refused (.integer (.str "zz"))) := by
  have hfails : configure markedSize 0.0 = .error (.numeral (.notANumeral 16 "0xzz")) := rfl
  refine ⟨hfails, ?_, rfl⟩
  rw [hfails]
  rintro (⟨b, h⟩ | ⟨r, h⟩) <;> cases h

end PhaseMachine.Config
