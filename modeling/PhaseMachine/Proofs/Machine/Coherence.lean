/-
No stale copies: in every state that a machine can come to, an address has at most one valid line in
the whole cache, and that line holds what the cell of memory holds. This is the coherence of storage,
read at the places of the lines.
-/
import PhaseMachine.Proofs.Machine.Soundness

namespace PhaseMachine

namespace Cache

/-! ## Lines at their places -/

def Hierarchy.lineAt (h : Hierarchy) (t : Tier) (i : Nat) : Line :=
  (h.level t).line i

theorem Level.lt_size_of_valid {l : Level} {i : Nat} (h : (l.line i).valid = true) : i < l.size := by
  by_contra hi
  unfold Level.line at h
  rw [List.getD_eq_getElem?_getD, List.getElem?_eq_none (not_lt.1 hi)] at h
  cases h

theorem Level.line_mem_valid {l : Level} {i : Nat} (h : (l.line i).valid = true) : l.line i ∈ l.valid :=
  Level.mem_valid.2 ⟨Level.line_mem (Level.lt_size_of_valid h), h⟩

/-- Valid lines for different addresses: within a row, an address has one place. -/
theorem Level.place_unique {l : Level} (hd : (l.valid.map (·.address)).Nodup) {i j : Nat}
    (hi : (l.line i).valid = true) (hj : (l.line j).valid = true)
    (ha : (l.line i).address = (l.line j).address) : i = j := by
  have hpair : l.lines.Pairwise fun a b => a.valid = true → b.valid = true → a.address ≠ b.address :=
    List.pairwise_filter.1 (List.pairwise_map.1 hd)
  rw [List.pairwise_iff_getElem] at hpair
  have hli := Level.lt_size_of_valid hi
  have hlj := Level.lt_size_of_valid hj
  rw [Level.line_eq hli] at hi ha
  rw [Level.line_eq hlj] at hj ha
  rcases Nat.lt_trichotomy i j with h | h | h
  · exact absurd ha (hpair i j hli hlj h hi hj)
  · exact h
  · exact absurd ha.symm (hpair j i hlj hli h hj hi)

/-- Rows whose valid lines are for different addresses. -/
theorem Hierarchy.level_distinct {h : Hierarchy} (hd : (h.valid.map (·.address)).Nodup) (t : Tier) :
    ((h.level t).valid.map (·.address)).Nodup := by
  unfold Hierarchy.valid at hd
  rw [List.map_append, List.map_append] at hd
  cases t with
  | l1 => exact hd.of_append_left
  | l2 => exact hd.of_append_right.of_append_left
  | l3 => exact hd.of_append_right.of_append_right

/-- Valid lines of two rows are for different addresses. -/
theorem Hierarchy.tier_unique {h : Hierarchy} (hd : (h.valid.map (·.address)).Nodup) {t u : Tier}
    {a b : Line} (ha : a ∈ (h.level t).valid) (hb : b ∈ (h.level u).valid) (he : a.address = b.address) :
    t = u := by
  unfold Hierarchy.valid at hd
  rw [List.map_append, List.map_append] at hd
  obtain ⟨-, h23, h1⟩ := List.nodup_append.1 hd
  obtain ⟨-, -, h2⟩ := List.nodup_append.1 h23
  have hma : a.address ∈ (h.level t).valid.map (·.address) := List.mem_map_of_mem ha
  have hmb : a.address ∈ (h.level u).valid.map (·.address) := he ▸ List.mem_map_of_mem hb
  cases t <;> cases u <;> first
    | rfl
    | exact absurd rfl (h1 _ hma _ (List.mem_append_left _ hmb))
    | exact absurd rfl (h1 _ hma _ (List.mem_append_right _ hmb))
    | exact absurd rfl (h1 _ hmb _ (List.mem_append_left _ hma))
    | exact absurd rfl (h1 _ hmb _ (List.mem_append_right _ hma))
    | exact absurd rfl (h2 _ hma _ hmb)
    | exact absurd rfl (h2 _ hmb _ hma)

/-- In a coherent cache an address has one place. -/
theorem Coherent.place_unique {h : Hierarchy} {v : Values} (hc : Coherent h v) {t u : Tier} {i j : Nat}
    (hi : (h.lineAt t i).valid = true) (hj : (h.lineAt u j).valid = true)
    (ha : (h.lineAt t i).address = (h.lineAt u j).address) : t = u ∧ i = j := by
  have htu := Hierarchy.tier_unique hc.distinct (Level.line_mem_valid hi) (Level.line_mem_valid hj) ha
  subst htu
  exact ⟨rfl, Level.place_unique (Hierarchy.level_distinct hc.distinct t) hi hj ha⟩

end Cache

/-- An address with a cell is an address of memory. -/
theorem Memory.lt_size_of_value? {m : Memory} {a x : Int} (h : m.value? a = some x) : 0 ≤ a ∧ a < m.size := by
  unfold value? find? at h
  split at h
  · next ha =>
    refine ⟨ha, ?_⟩
    obtain ⟨c, hc, -⟩ := Option.map_eq_some_iff.1 h
    obtain ⟨hlt, -⟩ := Array.getElem?_eq_some_iff.1 hc
    unfold size
    omega
  · cases h

namespace Machine

variable {τ : Type} [Quantity τ]

/-! ## Every state -/

/-- In every state that a machine can come to, no address has valid lines at two places of the cache,
in one level or in two, and a valid line is for an address of memory and holds the value there. -/
theorem Reachable.cache_coherent {m : Machine τ} (h : Reachable m) :
    (∀ t i u j, (m.storage.cache.lineAt t i).valid = true → (m.storage.cache.lineAt u j).valid = true →
      (m.storage.cache.lineAt t i).address = (m.storage.cache.lineAt u j).address → t = u ∧ i = j) ∧
    ∀ t i, (m.storage.cache.lineAt t i).valid = true →
      0 ≤ (m.storage.cache.lineAt t i).address ∧
      (m.storage.cache.lineAt t i).address < m.storage.memory.size ∧
      m.storage.memory.value? (m.storage.cache.lineAt t i).address =
        some (m.storage.cache.lineAt t i).value := by
  have hc : Cache.Coherent m.storage.cache m.storage.values := h.sound.coherent_storage
  refine ⟨fun t i u j => hc.place_unique, fun t i hv => ?_⟩
  have hcell := hc.current _ (Cache.Hierarchy.mem_valid.2 ⟨t, Cache.Level.line_mem_valid hv⟩)
  rw [Storage.cell?_values] at hcell
  obtain ⟨h0, hlt⟩ := Memory.lt_size_of_value? hcell
  exact ⟨h0, hlt, hcell⟩

/-- After the demoting run the second level has the only line for the address that was stored first, and it
holds the value there. -/
theorem cache_coherent_demoted :
    ((small true false).after demotingRun).storage.cache.lineAt .l2 0 =
      { address := 2, value := 7, valid := true, dirty := true, lastAccessed := 7 } ∧
    (∀ i, (((small true false).after demotingRun).storage.cache.lineAt .l1 i).valid = true →
      (((small true false).after demotingRun).storage.cache.lineAt .l1 i).address ≠ 2) ∧
    ((small true false).after demotingRun).storage.memory.value? 2 = some 7 := by
  obtain ⟨hplace, hvalue⟩ := ((reachable_small true false).after demotingRun).cache_coherent
  have hline : ((small true false).after demotingRun).storage.cache.lineAt .l2 0 =
      { address := 2, value := 7, valid := true, dirty := true, lastAccessed := 7 } := by
    decide +kernel
  refine ⟨hline, fun i hi ha => ?_, ?_⟩
  · obtain ⟨ht, -⟩ := hplace .l1 i .l2 0 hi (by rw [hline]) (by rw [hline, ha])
    cases ht
  · have := (hvalue .l2 0 (by rw [hline])).2.2
    rw [hline] at this
    exact this

end Machine

end PhaseMachine
