/-
An instruction does over plain values what it does over storage with a coherent cache: each look-up
finds the same or the same flaw, so the effect has the changes of the deed. Only the load needs the
cache to be coherent; there the line that answers holds the value of the cell.
-/
import PhaseMachine.Proofs.Execution.Effect
import PhaseMachine.Proofs.Flat.Machine

namespace PhaseMachine

/-! ## Look-ups that match -/

/-- A look-up over storage and one over plain values come to the same: both find something, and what
they find is related, or neither does for the same flaw. -/
def Matches {α β : Type} (R : α → β → Prop) (x : Except Fault α) (y : Except Flaw β) : Prop :=
  (∃ a b, x = .ok a ∧ y = .ok b ∧ R a b) ∨ ∃ w, x = .error (.flaw w) ∧ y = .error w

namespace Matches

variable {α β γ δ : Type} {R : α → β → Prop} {S : γ → δ → Prop}

theorem ok {a : α} {b : β} (h : R a b) : Matches R (.ok a) (.ok b) :=
  .inl ⟨a, b, rfl, rfl, h⟩

theorem error (w : Flaw) : Matches R (.error (.flaw w)) (.error w) :=
  .inr ⟨w, rfl, rfl⟩

/-- What goes on in the same way from look-ups that match, matches. -/
theorem bind {x : Except Fault α} {y : Except Flaw β} {f : α → Except Fault γ} {g : β → Except Flaw δ}
    (h : Matches R x y) (hfg : ∀ a b, R a b → Matches S (f a) (g b)) : Matches S (x >>= f) (y >>= g) := by
  rcases h with ⟨a, b, rfl, rfl, hR⟩ | ⟨w, rfl, rfl⟩
  · exact hfg a b hR
  · exact .error w

end Matches

namespace Storage

variable (s : Storage)

theorem namedRegister_named (part : Part) (name : String) :
    Matches (fun r x => r.name = name ∧ r.value = x) (s.namedRegister part (.given name))
      (s.values.named part name) := by
  simp only [namedRegister, RegisterBank.get, Values.named, register?_values, RegisterBank.value?]
  cases hf : s.registers.find? name with
  | some r => exact .ok ⟨RegisterBank.name_of_find? hf, rfl⟩
  | none => exact .error (.unknownRegister name part)

theorem namedRegister_destined {f : Field String} (hf : f.isProper = true) :
    Matches (fun r p => p = (r.name, r.value)) (s.namedRegister .destination f) (s.values.destined f) := by
  cases f with
  | absent => exact .error (.missing .destination)
  | foreign v => cases hf
  | given name =>
    simp only [Values.destined]
    rcases s.namedRegister_named .destination name with ⟨r, x, hr, hv, rfl, rfl⟩ | ⟨w, hr, hv⟩
    · rw [hr, hv]
      exact .ok rfl
    · rw [hr, hv]
      exact .error w

theorem addressedCell_addressed {f : Field Int} (hf : f.isProper = true) :
    Matches (fun p q => q = (p.1, s.memory.peek p.1) ∧ p.2.value = s.memory.peek p.1) (s.addressedCell f)
      (s.values.addressed f) := by
  cases f with
  | absent => exact .error (.missing .address)
  | foreign v => cases hf
  | given a =>
    simp only [addressedCell, Values.addressed, cell?_values, Memory.value?]
    cases hc : s.memory.find? a with
    | none => exact .error (.outsideMemory a)
    | some c =>
      have hp : s.memory.peek a = c.value := by
        unfold Memory.peek
        rw [hc]
        rfl
      exact .ok ⟨by rw [hp], hp.symm⟩

theorem operandSource_operand (part : Part) (o : Option Operand) :
    Matches (fun x y => y = x.value) (s.operandSource part o) (s.values.operand part o) := by
  cases o with
  | none => exact .error (.missing part)
  | some o =>
    cases o with
    | literal x => exact .ok rfl
    | register name =>
      simp only [operandSource, Values.operand]
      rcases s.namedRegister_named part name with ⟨r, x, hr, hv, -, rfl⟩ | ⟨w, hr, hv⟩
      · rw [hr, hv]
        exact .ok rfl
      · rw [hr, hv]
        exact .error w

end Storage

/-! ## Actions and deeds -/

/-- The changes of an action that takes what it loads from memory. -/
def Action.changes (s : Storage) : Action → List Change
  | set destination source => [.register ⟨destination.name, destination.value, source.value⟩]
  | compute destination _ _ result => [.register ⟨destination.name, destination.value, result⟩]
  | loadCell destination address _ =>
    [.register ⟨destination.name, destination.value, s.memory.peek address⟩]
  | storeCell source address old => [.memory ⟨address, old, source.value⟩]
  | nothing => []

/-- An action and a deed that come to the same. -/
abbrev SameDeed (s : Storage) (action : Except Fault Action) (deed : Except Flaw (List Change)) : Prop :=
  Matches (fun a changes => changes = a.changes s) action deed

namespace Instruction

variable {i : Instruction} {s : Storage}

theorem moveAction_same (hw : i.WellTyped) : SameDeed s (i.moveAction s) (i.moveDeed s.values) := by
  refine (s.namedRegister_destined hw.1).bind fun r _ hr => ?_
  refine (s.operandSource_operand .operand1 i.operand1).bind fun x _ hx => ?_
  subst hr hx
  exact .ok rfl

theorem loadAction_same (hw : i.WellTyped) : SameDeed s (i.loadAction s) (i.loadDeed s.values) := by
  have hp := hw.2
  unfold loadAction loadDeed
  cases ha : i.address with
  | absent => exact moveAction_same hw
  | foreign v => rw [ha] at hp; cases hp
  | given address =>
    rw [ha] at hp
    refine (s.namedRegister_destined hw.1).bind fun r _ hr => ?_
    refine (s.addressedCell_addressed hp).bind fun c _ hc => ?_
    obtain ⟨rfl, -⟩ := hc
    subst hr
    exact .ok rfl

theorem storeAction_same (hw : i.WellTyped) : SameDeed s (i.storeAction s) (i.storeDeed s.values) := by
  refine (s.namedRegister_destined hw.1).bind fun r _ hr => ?_
  refine (s.addressedCell_addressed hw.2).bind fun c _ hc => ?_
  obtain ⟨rfl, hold⟩ := hc
  subst hr
  exact .ok (by rw [← hold]; rfl)

theorem computeAction_same (hw : i.WellTyped) (f : Int → Int → Int) :
    SameDeed s (i.computeAction f s) (i.computeDeed f s.values) := by
  refine (s.namedRegister_destined hw.1).bind fun r _ hr => ?_
  refine (s.operandSource_operand .operand1 i.operand1).bind fun x _ hx => ?_
  refine (s.operandSource_operand .operand2 i.operand2).bind fun y _ hy => ?_
  subst hr hx hy
  exact .ok rfl

/-- What a well-typed instruction asks for over storage comes to what it does over the values. -/
theorem action_same (hw : i.WellTyped) : SameDeed s (i.action s) (i.deed s.values) := by
  unfold action deed
  cases i.opcode with
  | load => exact loadAction_same hw
  | store => exact storeAction_same hw
  | mov => exact moveAction_same hw
  | add => exact computeAction_same hw _
  | sub => exact computeAction_same hw _
  | mul => exact computeAction_same hw _
  | div => exact computeAction_same hw _
  | _ => exact .ok rfl

end Instruction

/-! ## Effects -/

/-- With a coherent cache, carrying out an action has its changes. -/
theorem Action.changes_effect {s : Storage} {a : Action} (hr : s.cache.Roomy) (hc : s.Coherent)
    (ha : a.Found s) (cycle : Int) : (a.effect s cycle).changes = a.changes s := by
  cases a with
  | set d x => rfl
  | compute d x y result => rfl
  | storeCell source address old => rfl
  | nothing => rfl
  | loadCell d address asFlag =>
    have hval := (hc.check hr (cell?_peek ha.2) cycle asFlag).2
    show [Change.register ⟨d.name, d.value,
      (s.cache.check address (s.memory.peek address) cycle asFlag).2.value⟩] = _
    rw [hval]
    rfl

/-- An attempt over storage with a coherent cache, and a try over its values, come to the same, unless the
attempt fails for an id that cannot be written. -/
theorem Instruction.attempt_tried {i : Instruction} {s : Storage} (hw : i.WellTyped) (hr : s.cache.Roomy)
    (hc : s.Coherent) (strict : Bool) (cycle : Int) :
    (∃ e, i.attempt strict s cycle = .ok (.done e) ∧ i.tried strict s.values = .ok e.changes) ∨
    (∃ x, i.attempt strict s cycle = .ok (.skipped x) ∧ i.tried strict s.values = .ok []) ∨
    (∃ x, i.attempt strict s cycle = .error (.malformed x) ∧ i.tried strict s.values = .error x) ∨
    i.attempt strict s cycle = .error (.misuse .unwritable) := by
  unfold attempt tried execute
  rcases action_same (s := s) hw with ⟨a, _, ha, hd, rfl⟩ | ⟨w, ha, hd⟩
  · rw [ha, hd]
    refine .inl ⟨a.effect s cycle, rfl, ?_⟩
    rw [Action.changes_effect hr hc (action_found ha)]
  · rw [ha, hd]
    refine .inr ?_
    simp only [Except.map]
    cases i.id.isWritable with
    | false => exact .inr (.inr rfl)
    | true =>
      cases strict with
      | false => exact .inl ⟨i.malformed w, rfl, rfl⟩
      | true => exact .inr (.inl ⟨i.malformed w, rfl, rfl⟩)

end PhaseMachine
