/-
The shape of configuration data. For each part of it, a decision says which values are read in an orderly
way: those that have a result and those that are refused as mistakes. The others show how the reading
fails otherwise: a text with the mark of base 16 that is no numeral, an integer too long to be shown or
too large to be a duration, a list or a mapping that is none, keys that cannot be sorted.
-/
import PhaseMachine.Config.Building
import PhaseMachine.Proofs.Config.Orderly

namespace PhaseMachine.Config

open Orderly

/-! ## Integers, texts and lists -/

/-- A text that is marked as a numeral of base 16 has to be one; and what is refused has to be shown. -/
def integerShaped : Value → Bool
  | .int _ => true
  | .str s => !Operand.hasHexMark s.toList || (Numeral.read 16 s).isOk
  | v => v.isWritable

theorem readInteger_orderly (v : Value) : Orderly (readInteger v) ↔ integerShaped v = true := by
  cases v with
  | int i => exact ok_iff i
  | str s =>
    unfold readInteger integerShaped
    dsimp only
    split
    · next h =>
      cases hr : Numeral.read 16 s with
      | ok i => simp [Except.mapError, Except.isOk, Except.toBool, Orderly.ok]
      | error r => simp [Except.mapError, Except.isOk, Except.toBool, error_iff, h]
    · next h =>
      refine iff_of_true ?_ (by simp [h])
      split
      · exact .ok _
      · exact (refuse_iff _).2 rfl
  | _ => simp [readInteger, integerShaped, refuse_iff, Refusal.values]

/-- What can be gone through. -/
def isIterable : Value → Bool
  | .list _ | .map _ | .str _ => true
  | _ => false

theorem elements_orderly (v : Value) : Orderly (elements v) ↔ isIterable v = true := by
  cases v <;> simp [elements, isIterable, Orderly]

/-! ## Machine -/

/-- A register without a name is shown as it is refused; name and description are shown anyway. -/
def registerShaped : Value → Bool
  | .map entries =>
    match Value.field? entries "name" with
    | some name => name.isWritable && (Value.fieldD entries "description" (.str "")).isWritable
    | none => (Value.map entries).isWritable
  | v => v.isWritable

theorem readRegister_orderly (v : Value) : Orderly (readRegister v) ↔ registerShaped v = true := by
  cases v with
  | str s => exact ok_iff _
  | map entries =>
    unfold readRegister registerShaped
    dsimp only
    cases Value.field? entries "name" with
    | some name => exact bind_textOf_iff fun _ => (bind_iff_left fun _ _ => .ok _).trans (textOf_iff _)
    | none => simp [refuse_iff, Refusal.values]
  | _ => simp [readRegister, registerShaped, refuse_iff, Refusal.values]

/-- A level of the cache is a mapping, its name is shown, and if it is the name of a level its size has to
be read. -/
def levelShaped : Value → Bool
  | .map entries =>
    let name := Value.fieldD entries "level" (.str "")
    name.isWritable && match Cache.Tier.ofName? (Text.upper name.text) with
      | some _ => integerShaped (Value.fieldD entries "size" .null)
      | none => true
  | _ => false

/-- A field can be shown whatever stands for it in its absence. -/
theorem isWritable_fieldD {entries : Entries} {name : String} {v w : Value}
    (h : (Value.fieldD entries name v).isWritable = true) (hw : w.isWritable = true) :
    (Value.fieldD entries name w).isWritable = true := by
  unfold Value.fieldD at *
  cases hf : Value.field? entries name with
  | none => exact hw
  | some x => rw [hf] at h; exact h

theorem readLevel_orderly (v : Value) : Orderly (readLevel v) ↔ levelShaped v = true := by
  cases v with
  | map entries =>
    unfold readLevel levelShaped
    dsimp only
    refine bind_textOf_iff fun hw => ?_
    cases Cache.Tier.ofName? (Text.upper (Value.fieldD entries "level" (.str "")).text) with
    | some tier => exact (bind_iff_left fun _ _ => .ok _).trans (readInteger_orderly _)
    | none =>
      refine iff_of_true ((refuse_iff _).2 ?_) rfl
      simpa [Refusal.values] using isWritable_fieldD hw rfl
  | _ => simp [readLevel, levelShaped, error_iff]

def cacheShaped (v : Value) : Bool :=
  isIterable v && after (elements v) (inTurn readLevel levelShaped)

theorem readCache_orderly (v : Value) : Orderly (readCache v) ↔ cacheShaped v = true := by
  refine bind_iff (elements_orderly v) fun items _ => ?_
  refine (bind_iff_left fun levels _ => ?_).trans (mapM_iff fun a _ => readLevel_orderly a)
  split
  · exact .ok _
  · exact refuse_of_nil rfl

def registersShaped (v : Value) : Bool :=
  isIterable v && after (elements v) (inTurn readRegister registerShaped)

theorem readRegisters_orderly (v : Value) :
    Orderly (do (← elements v).mapM readRegister) ↔ registersShaped v = true := by
  refine bind_iff (elements_orderly v) fun items _ => ?_
  exact mapM_iff fun a _ => readRegister_orderly a

/-- A duration in an integer has to be in the range of floating point. -/
def durationShaped : Value → Bool
  | .int i => (Numeral.floatOfInt? i).isSome
  | v => v.isWritable

theorem readDuration_orderly (v : Value) : Orderly (readDuration v) ↔ durationShaped v = true := by
  cases v with
  | int i =>
    unfold readDuration durationShaped Value.toFloat
    dsimp only
    cases Numeral.floatOfInt? i with
    | some x => exact ok_iff x
    | none => simp [error_iff]
  | str s =>
    unfold readDuration durationShaped Value.toFloat
    refine iff_of_true ?_ rfl
    dsimp only
    cases Numeral.readFloat? s with
    | some x => exact .ok x
    | none => exact (refuse_iff _).2 rfl
  | _ => simp [readDuration, durationShaped, Value.toFloat, Value.isWritable, refuse_iff, Refusal.values, Orderly.ok]

/-- The shape of a field, if there is one. -/
def fieldShaped (entries : Entries) (name : String) (shaped : Value → Bool) : Bool :=
  (Value.field? entries name).all shaped

theorem optional_orderly {entries : Entries} {name : String} {default : α} {read : Value → Except Failure α}
    {shaped : Value → Bool} (h : ∀ v, Orderly (read v) ↔ shaped v = true) :
    Orderly (optional entries name default read) ↔ fieldShaped entries name shaped = true := by
  unfold optional fieldShaped
  cases Value.field? entries name with
  | none => exact ok_iff default
  | some v => exact h v

/-- The fields of a machine are read in this order. -/
def setupShaped (entries : Entries) : Bool :=
  fieldShaped entries "memory_size" integerShaped &&
  after (optional entries "memory_size" Memory.defaultSize readInteger) fun _ =>
  fieldShaped entries "registers" registersShaped &&
  after (optional entries "registers" RegisterBank.defaultSpecs fun v => do
    (← elements v).mapM readRegister) fun _ =>
  fieldShaped entries "cache" cacheShaped &&
  after (optional entries "cache" Cache.Hierarchy.defaultSizes readCache) fun _ =>
  fieldShaped entries "step_duration_ms" durationShaped

theorem readSetup_orderly (entries : Entries) : Orderly (readSetup entries) ↔ setupShaped entries = true := by
  refine bind_iff (optional_orderly readInteger_orderly) fun _ _ => ?_
  refine bind_iff (optional_orderly readRegisters_orderly) fun _ _ => ?_
  refine bind_iff (optional_orderly readCache_orderly) fun _ _ => ?_
  exact (bind_iff_left fun _ _ => .ok _).trans (optional_orderly readDuration_orderly)

/-- The machine is a mapping. -/
def machineShaped : Value → Bool
  | .map entries => setupShaped entries
  | _ => false

theorem readMachine_orderly (v : Value) : Orderly (readMachine v) ↔ machineShaped v = true := by
  cases v with
  | map entries => exact readSetup_orderly entries
  | list items => simp only [readMachine, machineShaped, error_iff]; split <;> simp
  | str s => simp only [readMachine, machineShaped, error_iff]; split <;> simp
  | _ => simp [readMachine, machineShaped, error_iff]

/-! ## Program -/

/-- Keys that no instruction has are shown in order; without any, an address has to be read. -/
def entryShaped : Value → Bool
  | .map entries =>
    (Value.field? entries "opcode").isNone ||
      match (entries.map (·.1)).filter (fun k => !isInstructionKey k) with
      | [] => fieldShaped entries "address" integerShaped
      | unknown => (Value.sorted? unknown).any fun keys => keys.all Value.isWritable
  | _ => true

theorem readEntries_orderly (index : Nat) (v : Value) : Orderly (readEntries index v) ↔ entryShaped v = true := by
  cases v with
  | map entries =>
    unfold readEntries entryShaped
    dsimp only
    cases Value.field? entries "opcode" with
    | none => exact iff_of_true (refuse_of_nil rfl) rfl
    | some opcode =>
      cases (entries.map (·.1)).filter (fun k => !isInstructionKey k) with
      | nil =>
        unfold fieldShaped
        cases Value.field? entries "address" with
        | none => exact ok_iff _
        | some a => exact (bind_iff_left fun _ _ => .ok _).trans (readInteger_orderly a)
      | cons key keys =>
        dsimp only
        cases Value.sorted? (key :: keys) with
        | some keys => exact refuse_iff _
        | none => exact error_iff.trans (by simp)
  | _ => exact iff_of_true (refuse_of_nil rfl) rfl

/-- Instructions can be gone through, if there are any and there is no sample. -/
def programShaped : Value → Bool
  | .map entries =>
    match given? entries "example", positive? entries "instructions" with
    | none, some items =>
      isIterable items && after (elements items) fun items =>
        inTurn (fun p => readEntries p.2 p.1) (fun p => entryShaped p.1) items.zipIdx
    | _, _ => true
  | _ => true

theorem readProgram_orderly (v : Value) : Orderly (readProgram v) ↔ programShaped v = true := by
  cases v with
  | map entries =>
    unfold readProgram programShaped
    dsimp only
    cases given? entries "example" with
    | some sample =>
      cases positive? entries "instructions" with
      | some items => exact iff_of_true (refuse_of_nil rfl) rfl
      | none => exact ok_iff _
    | none =>
      cases positive? entries "instructions" with
      | none => exact iff_of_true (refuse_of_nil rfl) rfl
      | some items =>
        refine bind_iff (elements_orderly items) fun items _ => ?_
        exact (bind_iff_left fun _ _ => .ok _).trans (mapM_iff fun p _ => readEntries_orderly p.2 p.1)
  | _ => exact iff_of_true (refuse_of_nil rfl) rfl

end PhaseMachine.Config
