/-
What carrying out an instruction does to storage, one lemma for each kind of action: storage passes on
with its layout, a coherent cache stays coherent, and the changes that the effect lists lead exactly
from the values before to those after.
-/
import PhaseMachine.Proofs.Execution.Action
import PhaseMachine.Proofs.History.Delta
import PhaseMachine.Proofs.Storage.Passing

namespace PhaseMachine

open Change

/-- An effect that keeps the layout of storage and lists exactly what it changes. -/
structure Effect.Faithful (s : Storage) (e : Effect) : Prop where
  passes : s.Passes e.storage
  leads : Leads s.values e.changes e.storage.values

namespace Action

variable {s : Storage}

theorem register?_of_found {r : Register} (h : s.registers.find? r.name = some r) :
    s.values.register? r.name = some r.value := by
  rw [Storage.register?_values]
  unfold RegisterBank.value?
  rw [h]
  rfl

theorem setEffect_faithful {d : Register} (h : s.registers.find? d.name = some d) (source : Source) :
    (setEffect s d source).Faithful s := by
  refine ⟨s.passes_write _ _, ?_⟩
  show Leads s.values [.register ⟨d.name, d.value, source.value⟩] _
  rw [show (setEffect s d source).storage.values = _ from s.values_write _ _]
  exact leads_register (register?_of_found h)

@[simp]
theorem toMap_activate (b : RegisterBank) (source : Source) : (activate b source).toMap = b.toMap := by
  unfold activate
  split
  · exact RegisterBank.toMap_setActive ..
  · rfl

theorem computeEffect_faithful {d : Register} (h : s.registers.find? d.name = some d) (a b : Source)
    (result : Int) : (computeEffect s d a b result).Faithful s := by
  have hstill : Storage.Still { s with registers := s.registers.write d.name result }
      (computeEffect s d a b result).storage :=
    Storage.still_of_values _ (by rw [toMap_activate, toMap_activate]) rfl
  refine ⟨(s.passes_write _ _).trans hstill.passes, ?_⟩
  show Leads s.values [.register ⟨d.name, d.value, result⟩] _
  rw [hstill.values, s.values_write]
  exact leads_register (register?_of_found h)

/-- The cell of a load holds what memory answers for its address. -/
theorem cell?_peek {address : Int} (h : (s.memory.find? address).isSome) :
    s.values.cell? address = some (s.memory.peek address) := by
  rw [Storage.cell?_values, Memory.peek_eq]
  obtain ⟨c, hc⟩ := Option.isSome_iff_exists.1 h
  unfold Memory.value?
  rw [hc]
  rfl

theorem loadEffect_faithful {d : Register} (h : s.registers.find? d.name = some d) {address : Int}
    (ha : (s.memory.find? address).isSome) (cycle : Int) (asFlag : Bool) :
    (loadEffect s cycle d address asFlag).Faithful s := by
  let access := s.cache.check address (s.memory.peek address) cycle asFlag
  have hv : (loadEffect s cycle d address asFlag).storage.values =
      s.values.setRegister d.name access.2.value := by
    rw [← s.values_write]
    show Values.mk _ (s.memory.markRead address).values = _
    rw [Memory.values_markRead]
    rfl
  refine ⟨⟨?_, ?_, s.cache.sameShape_check address _ cycle asFlag, fun hr hc => ?_⟩, ?_⟩
  · rw [hv, Values.names_setRegister]
  · rw [hv, Values.memory_setRegister]
  · exact (hc.check hr (cell?_peek ha) cycle asFlag).1.congr rfl (by rw [hv, Values.memory_setRegister])
  · show Leads s.values [.register ⟨d.name, d.value, access.2.value⟩] _
    rw [hv]
    exact leads_register (register?_of_found h)

theorem storeEffect_faithful {address old : Int} (h : s.memory.value? address = some old) (cycle : Int)
    (source : Register) : (storeEffect s cycle source address old).Faithful s := by
  have hcell : s.values.cell? address = some old := by rw [Storage.cell?_values, h]
  have hv : (storeEffect s cycle source address old).storage.values =
      s.values.setCell address source.value := s.values_store _ _ _
  refine ⟨⟨?_, ?_, s.cache.sameShape_update address _ cycle false, fun hr hc => ?_⟩, ?_⟩
  · rw [hv, Values.names_setCell]
  · rw [hv, Values.length_setCell]
  · exact (hc.update hr (by rw [hcell]; rfl) source.value cycle false).congr rfl (by rw [hv])
  · show Leads s.values [.memory ⟨address, old, source.value⟩] _
    rw [hv]
    exact leads_memory hcell

/-- Carrying out an action that was found in storage is faithful. -/
theorem effect_faithful {a : Action} (h : a.Found s) (cycle : Int) : (a.effect s cycle).Faithful s := by
  cases a with
  | set d source => exact setEffect_faithful h source
  | compute d x y result => exact computeEffect_faithful h x y result
  | loadCell d address asFlag => exact loadEffect_faithful h.1 h.2 cycle asFlag
  | storeCell source address old => exact storeEffect_faithful h.2 cycle source
  | nothing => exact ⟨.refl s, .refl s.values⟩

end Action

/-- Carrying out an instruction is faithful. -/
theorem Instruction.execute_faithful {i : Instruction} {s : Storage} {cycle : Int} {e : Effect}
    (h : i.execute s cycle = .ok e) : e.Faithful s := by
  obtain ⟨a, -, ha, rfl⟩ := execute_ok h
  exact Action.effect_faithful ha cycle

/-- So is an attempt that was made. -/
theorem Instruction.attempt_done {i : Instruction} {strict : Bool} {s : Storage} {cycle : Int} {e : Effect}
    (h : i.attempt strict s cycle = .ok (.done e)) : i.execute s cycle = .ok e := by
  unfold attempt at h
  split at h
  · next he => cases h; exact he
  · split at h
    · cases h
    · split at h <;> cases h
  · cases h

/-- An instruction that was passed over asks for nothing that there is. -/
theorem Instruction.attempt_skipped {i : Instruction} {strict : Bool} {s : Storage} {cycle : Int}
    {x : Malformed} (h : i.attempt strict s cycle = .ok (.skipped x)) : ∃ f, i.action s = .error f := by
  unfold attempt execute at h
  cases ha : i.action s with
  | error f => exact ⟨f, rfl⟩
  | ok a => rw [ha] at h; cases h

end PhaseMachine
