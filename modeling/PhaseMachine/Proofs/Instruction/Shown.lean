/-
Which instructions can be shown in assembly. A well-typed one can, unless one of its operands is an
integer with too many digits to be written in base 10. A listing shows each instruction of a program, and
adds only an encoding that every proper address has.
-/
import PhaseMachine.Instruction.Encoding
import Mathlib.Tactic.ByContra

namespace PhaseMachine.Instruction

variable {i : Instruction}

/-- Whether the operands, which assembly shows in base 10, can be written. -/
def Shown (i : Instruction) : Prop :=
  i.operand1.all Operand.isWritable ∧ i.operand2.all Operand.isWritable

instance (i : Instruction) : Decidable i.Shown :=
  inferInstanceAs (Decidable (_ ∧ _))

/-! ## Parts -/

theorem shownOperand_ok {o : Option Operand} (h : o.all Operand.isWritable = true) :
    ∃ text, shownOperand o = .ok text := by
  cases o with
  | none => exact ⟨none, rfl⟩
  | some o =>
    have hw : o.isWritable = true := h
    exact ⟨some o.text, if_pos hw⟩

theorem isWritable_of_shownOperand {o : Option Operand} {text : Option String}
    (h : shownOperand o = .ok text) : o.all Operand.isWritable = true := by
  cases o with
  | none => rfl
  | some o =>
    show o.isWritable = true
    by_contra hw
    rw [shownOperand, if_neg hw] at h
    cases h

theorem shownAddress_ok {f : Field Int} (h : f.isProper = true) : ∃ text, shownAddress f = .ok text := by
  cases f with
  | absent => exact ⟨none, rfl⟩
  | given a => exact ⟨some (addressText a), rfl⟩
  | foreign v => cases h

theorem shownDestination_ok {f : Field String} (h : f.isProper = true) :
    ∃ text, shownDestination f = .ok text := by
  cases f with
  | absent => exact ⟨none, rfl⟩
  | given name => exact ⟨some name, rfl⟩
  | foreign v => cases h

/-! ## Assembly -/

/-- What has a text in assembly has a text for each of its parts. -/
theorem shown_of_assembly {text : String} (h : i.assembly = .ok text) : i.destination.isProper = true ∧ i.Shown := by
  unfold assembly at h
  cases ha : shownOperand i.operand1 with
  | error u => rw [ha] at h; cases h
  | ok a =>
    cases hb : shownOperand i.operand2 with
    | error u => rw [ha, hb] at h; cases h
    | ok b =>
      refine ⟨?_, isWritable_of_shownOperand ha, isWritable_of_shownOperand hb⟩
      rw [ha, hb] at h
      cases hc : shownAddress i.address with
      | error u => rw [hc] at h; cases h
      | ok c =>
        cases hd : i.destination with
        | foreign v => rw [hc, hd] at h; cases h
        | _ => rfl

/-- A well-typed instruction has a text in assembly exactly if its operands can be written. -/
theorem assembly_ok_iff (hw : i.WellTyped) : (∃ text, i.assembly = .ok text) ↔ i.Shown := by
  constructor
  · rintro ⟨text, h⟩
    exact (shown_of_assembly h).2
  · rintro ⟨h1, h2⟩
    obtain ⟨a, ha⟩ := shownOperand_ok h1
    obtain ⟨b, hb⟩ := shownOperand_ok h2
    obtain ⟨c, hc⟩ := shownAddress_ok hw.2
    obtain ⟨d, hd⟩ := shownDestination_ok hw.1
    unfold assembly
    rw [ha, hb, hc, hd]
    simp only [bind, Except.bind]
    split
    · exact ⟨_, rfl⟩
    · exact ⟨_, rfl⟩

/-- An instruction with one literal for an operand is shown if that literal can be written. -/
theorem shown_literal {x : Int} (hx : Numeral.isWritable x = true) {opcode : Opcode} {destination : Field String}
    {address : Field Int} {description id : Value} :
    Shown { opcode, operand1 := some (.literal x), destination, address, description, id } := by
  have hwritable : (Operand.literal x).isWritable = true := hx
  exact ⟨by rw [Option.all_some]; exact hwritable, rfl⟩

theorem Writable.shown (h : i.Writable) : i.Shown :=
  ⟨h.1, h.2.1⟩

/-! ## Listings -/

theorem token_ok (ha : i.address.isProper = true) : ∃ token, i.token = .ok token := by
  unfold token
  cases hf : i.address with
  | foreign v => rw [hf] at ha; cases ha
  | _ => exact ⟨_, rfl⟩

theorem listingLine_ok_iff (ha : i.address.isProper = true) (index : Nat) :
    (∃ line, i.listingLine index = .ok line) ↔ i.destination.isProper = true ∧ i.Shown := by
  obtain ⟨token, ht⟩ := token_ok ha
  unfold listingLine
  rw [ht]
  constructor
  · rintro ⟨line, h⟩
    cases hs : i.assembly with
    | error u => rw [hs] at h; cases h
    | ok text => exact shown_of_assembly hs
  · rintro ⟨hd, hs⟩
    obtain ⟨text, h⟩ := (assembly_ok_iff ⟨hd, ha⟩).2 hs
    rw [h]
    exact ⟨_, rfl⟩

/-- A program is listed from any index on exactly if each instruction of it is. -/
theorem listingFrom_ok_iff {p : Program} (hp : ∀ i ∈ p, i.address.isProper = true) (index : Nat) :
    (∃ lines, listingFrom index p = .ok lines) ↔ ∀ i ∈ p, i.destination.isProper = true ∧ i.Shown := by
  induction p generalizing index with
  | nil => exact iff_of_true ⟨[], rfl⟩ fun i hi => by cases hi
  | cons i rest ih =>
    have hline := listingLine_ok_iff (hp i (List.mem_cons_self ..)) index
    have hrest := ih (fun j hj => hp j (List.mem_cons_of_mem i hj)) (index + 1)
    have hcons : listingFrom index (i :: rest) = do
        return (← i.listingLine index) :: (← listingFrom (index + 1) rest) := rfl
    rw [List.forall_mem_cons, ← hline, ← hrest, hcons]
    constructor
    · rintro ⟨lines, h⟩
      cases hl : i.listingLine index with
      | error u => rw [hl] at h; cases h
      | ok line =>
        cases hr : listingFrom (index + 1) rest with
        | error u => rw [hl, hr] at h; cases h
        | ok lines => exact ⟨⟨line, rfl⟩, lines, rfl⟩
    · rintro ⟨⟨line, hl⟩, lines, hr⟩
      rw [hl, hr]
      exact ⟨_, rfl⟩

end PhaseMachine.Instruction
