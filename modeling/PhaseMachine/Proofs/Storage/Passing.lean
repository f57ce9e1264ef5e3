/-
How storage may go on: the names of the registers, the size of memory and the shape of the cache stay,
and a cache that was coherent with memory stays so. A change of flags and marks alone, and a write to
a register, are such; `Passes` is a preorder, so a whole run is one as soon as each of its steps is.
-/
import PhaseMachine.Proofs.Cache.Coherence

namespace PhaseMachine.Storage

/-- Storage with a cache that is coherent with its memory. -/
def Coherent (s : Storage) : Prop :=
  Cache.Coherent s.cache s.values

/-- The same values and the same cache lines: only display may differ. -/
structure Still (s t : Storage) : Prop where
  values : t.values = s.values
  lines : ∀ u, (t.cache.level u).lines = (s.cache.level u).lines
  demotes : t.cache.demoteVictims = s.cache.demoteVictims

/-- Storage of the same layout, coherent if the first is. -/
structure Passes (s t : Storage) : Prop where
  names : t.values.names = s.values.names
  size : t.values.memory.length = s.values.memory.length
  shape : s.cache.SameShape t.cache
  coherent : s.cache.Roomy → s.Coherent → t.Coherent

variable {s t u : Storage}

/-! ## A preorder -/

theorem Passes.refl (s : Storage) : s.Passes s :=
  ⟨rfl, rfl, .refl _, fun _ h => h⟩

theorem Passes.trans (h1 : s.Passes t) (h2 : t.Passes u) : s.Passes u :=
  ⟨h2.names.trans h1.names, h2.size.trans h1.size, h1.shape.trans h2.shape,
    fun hr hc => h2.coherent (h1.shape.roomy hr) (h1.coherent hr hc)⟩

/-! ## Changes for display -/

theorem Still.valid (h : s.Still t) : t.cache.valid = s.cache.valid := by
  have hl : ∀ u, (t.cache.level u).valid = (s.cache.level u).valid := fun u => by
    unfold Cache.Level.valid
    rw [h.lines u]
  show t.cache.l1.valid ++ (t.cache.l2.valid ++ t.cache.l3.valid) = _
  rw [show t.cache.l1.valid = _ from hl .l1, show t.cache.l2.valid = _ from hl .l2,
    show t.cache.l3.valid = _ from hl .l3]
  rfl

theorem Still.passes (h : s.Still t) : s.Passes t := by
  refine ⟨by rw [h.values], by rw [h.values], ⟨fun u => ?_, h.demotes⟩, fun _ hc => ?_⟩
  · unfold Cache.Level.size
    rw [h.lines u]
  · exact Cache.Coherent.congr hc h.valid (by rw [h.values])

theorem Still.refl (s : Storage) : s.Still s :=
  ⟨rfl, fun _ => rfl, rfl⟩

/-- Flags of registers and memory are display. -/
theorem still_of_values (s : Storage) {b : RegisterBank} {m : Memory} (hb : b.toMap = s.registers.toMap)
    (hm : m.values = s.memory.values) : s.Still { s with registers := b, memory := m } := by
  refine ⟨?_, fun _ => rfl, rfl⟩
  unfold values
  rw [hb, hm]

/-- The marks of the cache are display. -/
theorem still_clearMarks (s : Storage) : s.Still { s with cache := s.cache.clearMarks } :=
  ⟨rfl, fun u => by cases u <;> rfl, rfl⟩

/-! ## Writes -/

/-- A write to a register does not concern the cache. -/
theorem passes_write (s : Storage) (name : String) (value : Int) :
    s.Passes { s with registers := s.registers.write name value } := by
  have hv := s.values_write name value
  refine ⟨?_, ?_, .refl _, fun _ hc => ?_⟩
  · rw [hv, Values.names_setRegister]
  · rw [hv, Values.memory_setRegister]
  · exact Cache.Coherent.congr hc rfl rfl

end PhaseMachine.Storage
