/-
Coherence of cache and memory: no two valid lines of the whole cache are for one address, and each
valid line holds what its cell of memory holds. A write goes through to the first line that is found
only, so the second part needs the first, across levels; together they survive every access. A
coherent cache answers a read with the value in memory.
-/
import PhaseMachine.Proofs.Cache.Access
import PhaseMachine.Proofs.Storage.Values

namespace PhaseMachine.Cache

open Hierarchy

/-- The valid lines are for different addresses and hold the values of memory. -/
structure Coherent (h : Hierarchy) (v : Values) : Prop where
  distinct : (h.valid.map (·.address)).Nodup
  current : ∀ line ∈ h.valid, v.cell? line.address = some line.value

namespace Coherent

variable {h k : Hierarchy} {v w : Values}

/-- An empty cache is coherent with any memory. -/
theorem of_valid_eq_nil (hn : h.valid = []) : Coherent h v := by
  constructor
  · rw [hn]
    exact List.nodup_nil
  · intro line hline
    rw [hn] at hline
    cases hline

/-- Coherence looks at the valid lines and at memory only. -/
theorem congr (hc : Coherent h v) (hlines : k.valid = h.valid) (hmem : w.memory = v.memory) :
    Coherent k w := by
  constructor
  · rw [hlines]
    exact hc.distinct
  · intro line hline
    rw [hlines] at hline
    have := hc.current line hline
    unfold Values.cell? at this ⊢
    rwa [hmem]

/-- One line gives way to another for its address, and only the cell there may change. -/
theorem exchange {old new : Line} {rest : List Line} (hc : Coherent h v) (h1 : h.valid.Perm (old :: rest))
    (h2 : k.valid.Perm (new :: rest)) (ha : new.address = old.address)
    (hv : w.cell? new.address = some new.value) (hw : ∀ a, a ≠ old.address → w.cell? a = v.cell? a) :
    Coherent k w := by
  have hd : ((old :: rest).map (·.address)).Nodup := (h1.map _).nodup_iff.1 hc.distinct
  constructor
  · rw [(h2.map _).nodup_iff, List.map_cons, ha]
    exact hd
  · intro line hline
    rcases List.mem_cons.1 (h2.mem_iff.1 hline) with rfl | hline
    · exact hv
    · -- another line for the address would repeat it among the addresses
      have hne : line.address ≠ old.address := by
        intro heq
        rw [List.map_cons, List.nodup_cons] at hd
        exact hd.1 (heq ▸ List.mem_map_of_mem hline)
      rw [hw _ hne]
      exact hc.current line (h1.mem_iff.2 (List.mem_cons_of_mem _ hline))

/-- A line for an address that no line was for comes in, others may be lost, and only the cell there
may change. -/
theorem takeIn {fresh : Line} {lost : List Line} (hc : Coherent h v)
    (hno : ∀ line ∈ h.valid, line.address ≠ fresh.address)
    (hp : (lost ++ k.valid).Perm (fresh :: h.valid)) (hv : w.cell? fresh.address = some fresh.value)
    (hw : ∀ a, a ≠ fresh.address → w.cell? a = v.cell? a) : Coherent k w := by
  constructor
  · have hd : ((fresh :: h.valid).map (·.address)).Nodup := by
      rw [List.map_cons, List.nodup_cons]
      refine ⟨fun hm => ?_, hc.distinct⟩
      obtain ⟨line, hline, heq⟩ := List.mem_map.1 hm
      exact hno line hline heq
    have := (hp.map (·.address)).nodup_iff.2 hd
    rw [List.map_append] at this
    exact this.of_append_right
  · intro line hline
    rcases List.mem_cons.1 (hp.mem_iff.1 (List.mem_append_right _ hline)) with rfl | hline
    · exact hv
    · rw [hw _ (hno line hline)]
      exact hc.current line hline

/-- A read keeps the cache coherent and answers the value in memory. -/
theorem check (hc : Coherent h v) (hr : h.Roomy) {a x : Int} (ha : v.cell? a = some x) (cycle : Int)
    (asFlag : Bool) :
    Coherent (h.check a x cycle asFlag).1 v ∧ (h.check a x cycle asFlag).2.value = x := by
  rcases access_cases hr (fun line => line)
      { address := a, value := x, valid := true, lastAccessed := cycle, asFlag }
      rfl (fun _ => rfl) with ⟨old, rest, hval, hold, h1, h2⟩ | ⟨lost, hval, hno, hp⟩
  · have hx : old.value = x := by
      have := hc.current old (h1.mem_iff.2 (List.mem_cons_self ..))
      rw [hold, ha] at this
      exact (Option.some.inj this).symm
    refine ⟨hc.exchange h1 h2 rfl ?_ fun _ _ => rfl, hval.trans hx⟩
    exact hc.current old (h1.mem_iff.2 (List.mem_cons_self ..))
  · exact ⟨hc.takeIn hno hp ha fun _ _ => rfl, hval⟩

/-- A write keeps the cache coherent with memory that has the new value too. -/
theorem update (hc : Coherent h v) (hr : h.Roomy) {a : Int} (ha : (v.cell? a).isSome) (x cycle : Int)
    (asFlag : Bool) : Coherent (h.update a x cycle asFlag).1 (v.setCell a x) := by
  obtain ⟨y, hy⟩ := Option.isSome_iff_exists.1 ha
  have hset : (v.setCell a x).cell? a = some x := by
    rw [Values.cell?_setCell, if_pos rfl, hy]
    rfl
  have hw : ∀ b, b ≠ a → (v.setCell a x).cell? b = v.cell? b := by
    intro b hb
    rw [Values.cell?_setCell, if_neg (Ne.symm hb)]
  rcases access_cases hr (fun line => { line with value := x, dirty := true })
      { address := a, value := x, valid := true, dirty := true, lastAccessed := cycle, asFlag }
      rfl (fun _ => rfl) with ⟨old, rest, -, hold, h1, h2⟩ | ⟨lost, -, hno, hp⟩
  · refine hc.exchange h1 h2 rfl ?_ fun b hb => hw b fun heq => hb (heq.trans hold.symm)
    show (v.setCell a x).cell? old.address = some x
    rw [hold]
    exact hset
  · exact hc.takeIn hno hp hset hw

end Coherent

end PhaseMachine.Cache
