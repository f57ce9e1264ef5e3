/-
What an instruction asks for is there: the registers and the cell that its action names are those of
storage, with the values they have before. So carrying the action out finds all it needs.
-/
import PhaseMachine.Execution.Effect
import PhaseMachine.Proofs.Storage.Values

namespace PhaseMachine

/-! ## Results -/

theorem bind_ok {ε α β : Type} {x : Except ε α} {f : α → Except ε β} {b : β} (h : (x >>= f) = .ok b) :
    ∃ y, x = .ok y ∧ f y = .ok b := by
  cases x with
  | error e => cases h
  | ok y => exact ⟨y, rfl, h⟩

theorem mapError_ok {ε ε' α : Type} {x : Except ε α} {f : ε → ε'} {a : α} (h : x.mapError f = .ok a) :
    x = .ok a := by
  cases x with
  | error e => cases h
  | ok y => cases h; rfl

/-! ## What was looked up -/

namespace Storage

variable {s : Storage}

theorem namedRegister_ok {part : Part} {f : Field String} {r : Register}
    (h : s.namedRegister part f = .ok r) : f = .given r.name ∧ s.registers.find? r.name = some r := by
  cases f with
  | absent => cases h
  | foreign v =>
    simp only [namedRegister] at h
    split at h
    · cases h
    · split at h <;> cases h
  | given name =>
    cases hf : s.registers.find? name with
    | none => simp only [namedRegister, RegisterBank.get, hf, Except.mapError] at h; cases h
    | some r' =>
      simp only [namedRegister, RegisterBank.get, hf, Except.mapError] at h
      cases h
      rw [RegisterBank.name_of_find? hf]
      exact ⟨rfl, hf⟩

theorem addressedCell_ok {f : Field Int} {a : Int} {c : Cell} (h : s.addressedCell f = .ok (a, c)) :
    s.memory.find? a = some c := by
  unfold addressedCell at h
  dsimp only at h
  split at h
  · cases h
  · split at h
    · next hf => cases h; exact hf
    · cases h
  · split at h
    · next hf => cases h; exact hf
    · cases h
  · cases h

end Storage

/-! ## Actions -/

/-- The registers and the cell of an action are those of storage. -/
def Action.Found (s : Storage) : Action → Prop
  | set destination _ => s.registers.find? destination.name = some destination
  | compute destination _ _ _ => s.registers.find? destination.name = some destination
  | loadCell destination address _ =>
    s.registers.find? destination.name = some destination ∧ (s.memory.find? address).isSome
  | storeCell source address old =>
    s.registers.find? source.name = some source ∧ s.memory.value? address = some old
  | nothing => True

namespace Instruction

variable {i : Instruction} {s : Storage} {a : Action}

theorem moveAction_found (h : i.moveAction s = .ok a) : a.Found s := by
  obtain ⟨d, hd, h⟩ := bind_ok h
  obtain ⟨src, -, h⟩ := bind_ok h
  cases h
  exact (Storage.namedRegister_ok hd).2

theorem loadAction_found (h : i.loadAction s = .ok a) : a.Found s := by
  unfold loadAction at h
  split at h
  · exact moveAction_found h
  · obtain ⟨d, hd, h⟩ := bind_ok h
    obtain ⟨⟨b, c⟩, hc, h⟩ := bind_ok h
    cases h
    exact ⟨(Storage.namedRegister_ok hd).2, by rw [Storage.addressedCell_ok hc]; rfl⟩

theorem storeAction_found (h : i.storeAction s = .ok a) : a.Found s := by
  obtain ⟨d, hd, h⟩ := bind_ok h
  obtain ⟨⟨b, c⟩, hc, h⟩ := bind_ok h
  cases h
  refine ⟨(Storage.namedRegister_ok hd).2, ?_⟩
  unfold Memory.value?
  rw [Storage.addressedCell_ok hc]
  rfl

theorem computeAction_found {f : Int → Int → Int} (h : i.computeAction f s = .ok a) : a.Found s := by
  obtain ⟨d, hd, h⟩ := bind_ok h
  obtain ⟨x, -, h⟩ := bind_ok h
  obtain ⟨y, -, h⟩ := bind_ok h
  cases h
  exact (Storage.namedRegister_ok hd).2

/-- What an instruction asks for is in storage. -/
theorem action_found (h : i.action s = .ok a) : a.Found s := by
  unfold action at h
  split at h
  · exact loadAction_found h
  · exact storeAction_found h
  · exact moveAction_found h
  · split at h
    · exact computeAction_found h
    · cases h
      trivial

/-- An effect is that of an action that was found. -/
theorem execute_ok {cycle : Int} {e : Effect} (h : i.execute s cycle = .ok e) :
    ∃ a, i.action s = .ok a ∧ a.Found s ∧ e = a.effect s cycle := by
  unfold execute at h
  cases ha : i.action s with
  | error f => rw [ha] at h; cases h
  | ok a =>
    rw [ha] at h
    cases h
    exact ⟨a, rfl, action_found ha, rfl⟩

end Instruction

end PhaseMachine
