/-
The order of heaps. Entries are compared by keys in a linear order, and in a heap no key is below that
of its parent; so the first entry has the least key. Pushing an entry and dropping the first one keep
the order: while an entry rises or sinks, it stands at the only place where the order may be broken.
-/
import PhaseMachine.Scheduler.Heap
import Mathlib.Order.WithBot
import Mathlib.Tactic

namespace PhaseMachine.Heap

variable {α κ : Type} {key : α → κ}

/-! ## Keys at places -/

/-- The key at a place, above all keys where there is no entry. -/
def keyAt (key : α → κ) (h : Array α) (i : Nat) : WithTop κ :=
  h[i]?.elim ⊤ fun a => (key a : WithTop κ)

theorem keyAt_of_lt {h : Array α} {i : Nat} (hi : i < h.size) : keyAt key h i = (key h[i] : WithTop κ) := by
  unfold keyAt
  rw [Array.getElem?_eq_getElem hi]
  rfl

theorem keyAt_of_le {h : Array α} {i : Nat} (hi : h.size ≤ i) : keyAt key h i = ⊤ := by
  unfold keyAt
  rw [Array.getElem?_eq_none hi]
  rfl

/-- The keys after two entries have changed places. -/
theorem keyAt_swapIfInBounds (key : α → κ) {h : Array α} {i j : Nat} (hi : i < h.size) (hj : j < h.size) (k : Nat) :
    keyAt key (h.swapIfInBounds i j) k =
      if k = j then keyAt key h i else if k = i then keyAt key h j else keyAt key h k := by
  rw [Array.swapIfInBounds_def, dif_pos hi, dif_pos hj, keyAt_of_lt hi, keyAt_of_lt hj]
  unfold keyAt
  rw [Array.getElem?_swap]
  by_cases hkj : k = j
  · rw [if_pos hkj, if_pos hkj.symm]
    rfl
  · rw [if_neg hkj, if_neg (Ne.symm hkj)]
    by_cases hki : k = i
    · rw [if_pos hki, if_pos hki.symm]
      rfl
    · rw [if_neg hki, if_neg (Ne.symm hki)]

/-! ## The order -/

variable [LinearOrder κ]

/-- No key is below that of its parent. -/
def Ordered (key : α → κ) (h : Array α) : Prop :=
  ∀ i, 0 < i → keyAt key h (parent i) ≤ keyAt key h i

theorem parent_lt {i : Nat} (hpos : 0 < i) : parent i < i := by
  unfold parent
  omega

/-- A map that keeps keys keeps the order. -/
theorem ordered_map {h : Array α} {f : α → α} (hf : ∀ a, key (f a) = key a) (ho : Ordered key h) :
    Ordered key (h.map f) := by
  have hkey : ∀ i, keyAt key (h.map f) i = keyAt key h i := by
    intro i
    unfold keyAt
    rw [Array.getElem?_map]
    cases h[i]? with
    | none => rfl
    | some a => exact congrArg _ (hf a)
  intro i hpos
  rw [hkey, hkey]
  exact ho i hpos

theorem ordered_empty : Ordered key (#[] : Array α) := by
  intro i _
  rw [keyAt_of_le (h := #[]) (i := i) (by simp)]
  exact le_top

theorem Ordered.first_le {h : Array α} (ho : Ordered key h) (i : Nat) : keyAt key h 0 ≤ keyAt key h i := by
  induction i using Nat.strongRecOn with
  | ind i ih =>
    rcases Nat.eq_zero_or_pos i with rfl | hpos
    · exact le_refl _
    · exact (ih (parent i) (parent_lt hpos)).trans (ho i hpos)

theorem Ordered.first_le_of_mem {h : Array α} (ho : Ordered key h) (hpos : 0 < h.size) {a : α} (ha : a ∈ h) :
    key h[0] ≤ key a := by
  obtain ⟨i, hi, rfl⟩ := Array.mem_iff_getElem.1 ha
  have hle := ho.first_le i
  rw [keyAt_of_lt hpos, keyAt_of_lt hi] at hle
  exact WithTop.coe_le_coe.1 hle

/-! ## One place out of order -/

/-- The order holds but above the entry at a place, which may have to rise. -/
structure Rising (key : α → κ) (h : Array α) (i : Nat) : Prop where
  others : ∀ j, 0 < j → j ≠ i → keyAt key h (parent j) ≤ keyAt key h j
  children : ∀ j, 0 < j → parent j = i → 0 < i → keyAt key h (parent i) ≤ keyAt key h j

/-- The order holds but above and below the entry at a place, which may have to sink. -/
structure Sinking (key : α → κ) (h : Array α) (i : Nat) : Prop where
  others : ∀ j, 0 < j → j ≠ i → parent j ≠ i → keyAt key h (parent j) ≤ keyAt key h j
  children : ∀ j, 0 < j → parent j = i → 0 < i → keyAt key h (parent i) ≤ keyAt key h j

section

variable {before : α → α → Bool} (hb : ∀ a b, before a b = true ↔ key a < key b)

include hb

theorem precedes_iff {h : Array α} {i j : Nat} (hj : j < h.size) :
    precedes before h i j = true ↔ keyAt key h i < keyAt key h j := by
  unfold precedes
  rw [keyAt_of_lt hj, Array.getElem?_eq_getElem hj]
  by_cases hi : i < h.size
  · rw [keyAt_of_lt hi, Array.getElem?_eq_getElem hi, WithTop.coe_lt_coe]
    exact hb _ _
  · rw [keyAt_of_le (Nat.le_of_not_lt hi), Array.getElem?_eq_none (Nat.le_of_not_lt hi)]
    constructor
    · intro hf; cases hf
    · intro hlt; exact absurd hlt not_top_lt

/-! ## Rising -/

omit hb in
/-- An entry that comes before its parent changes places with it. -/
theorem Rising.swap {h : Array α} {i : Nat} (hr : Rising key h i) (hpos : 0 < i) (hi : i < h.size)
    (hlt : keyAt key h i < keyAt key h (parent i)) :
    Rising key (h.swapIfInBounds i (parent i)) (parent i) := by
  have hpi := parent_lt hpos
  have hkey := keyAt_swapIfInBounds key hi (hpi.trans hi)
  constructor
  · intro j hj hjp
    rw [hkey, hkey, if_neg hjp]
    -- below the two places stand the old parent, its other child, and the children of the entry
    by_cases hji : j = i
    · rw [hji, if_pos rfl, if_pos rfl]
      exact hlt.le
    · rw [if_neg hji]
      by_cases hsibling : parent j = parent i
      · rw [if_pos hsibling]
        exact hlt.le.trans (hsibling ▸ hr.others j hj hji)
      · rw [if_neg hsibling]
        by_cases hchild : parent j = i
        · rw [if_pos hchild]
          exact hr.children j hj hchild hpos
        · rw [if_neg hchild]
          exact hr.others j hj hji
  · intro j hj hchild hpos
    have hpp := parent_lt hpos
    have hjp : j ≠ parent i := by
      rintro rfl
      omega
    have habove := hr.others (parent i) hpos (by omega)
    rw [hkey, hkey, if_neg (by omega), if_neg (by omega), if_neg hjp]
    split
    · exact habove
    · next hji => exact habove.trans (hchild ▸ hr.others j hj hji)

/-- An entry that rises ends in order. -/
theorem ordered_rise {h : Array α} {i : Nat} (hi : i < h.size) (hr : Rising key h i) :
    Ordered key (rise before h i) := by
  fun_induction rise before h i with
  | case1 h i hpos hrise ih =>
    have hpi := parent_lt hpos
    refine ih ?_ ?_
    · rw [Array.size_swapIfInBounds]
      exact hpi.trans hi
    · exact hr.swap hpos hi ((precedes_iff hb (hpi.trans hi)).1 hrise)
  | case2 h i hpos hstay =>
    intro j hj
    by_cases hji : j = i
    · subst hji
      refine le_of_not_gt fun hlt => hstay ?_
      exact (precedes_iff hb ((parent_lt hpos).trans hi)).2 hlt
    · exact hr.others j hj hji
  | case3 h i htop =>
    intro j hj
    exact hr.others j hj (by omega)

theorem ordered_push {h : Array α} (ho : Ordered key h) (a : α) : Ordered key (push before h a) := by
  have hold : ∀ j, j ≠ h.size → keyAt key (h.push a) j = keyAt key h j := by
    intro j hj
    unfold keyAt
    rw [Array.getElem?_push, if_neg hj]
  have hnone : ∀ j, h.size < j → keyAt key (h.push a) j = ⊤ := by
    intro j hj
    rw [hold j hj.ne', keyAt_of_le hj.le]
  refine ordered_rise hb (by rw [Array.size_push]; omega) ⟨?_, ?_⟩
  · intro j hj hne
    have hpj := parent_lt hj
    by_cases hlt : j < h.size
    · rw [hold j hne, hold _ (by omega)]
      exact ho j hj
    · rw [hnone j (by omega)]
      exact le_top
  · intro j hj hchild _
    have hpj := parent_lt hj
    rw [hnone j (by omega)]
    exact le_top

/-! ## Sinking -/

/-- The child that moves up is a child, and not above the other one. -/
theorem smallerChild_spec {h : Array α} {i : Nat} (hchild : 2 * i + 1 < h.size) :
    smallerChild before h i < h.size ∧ 0 < smallerChild before h i ∧ parent (smallerChild before h i) = i ∧
      ∀ j, 0 < j → parent j = i → keyAt key h (smallerChild before h i) ≤ keyAt key h j := by
  have hchildren : ∀ j, 0 < j → parent j = i → j = 2 * i + 1 ∨ j = 2 * i + 2 := by
    unfold parent
    omega
  unfold smallerChild
  split
  · next hright =>
    obtain ⟨hin, hnot⟩ := hright
    refine ⟨hin, by omega, by unfold parent; omega, fun j hj hp => ?_⟩
    rcases hchildren j hj hp with rfl | rfl
    · refine le_of_not_gt fun hlt => ?_
      rw [(precedes_iff hb hin).2 hlt] at hnot
      cases hnot
    · exact le_refl _
  · next hleft =>
    refine ⟨hchild, by omega, by unfold parent; omega, fun j hj hp => ?_⟩
    rcases hchildren j hj hp with rfl | rfl
    · exact le_refl _
    · by_cases hin : 2 * i + 2 < h.size
      · refine ((precedes_iff hb hin).1 ?_).le
        by_contra hnot
        exact hleft ⟨hin, Bool.eq_false_iff.2 hnot⟩
      · rw [keyAt_of_le (Nat.le_of_not_lt hin)]
        exact le_top

omit hb in
/-- An entry changes places with the child that is not above the other one. -/
theorem Sinking.swap {h : Array α} {i c : Nat} (hs : Sinking key h i) (hi : i < h.size) (hc : c < h.size)
    (hpos : 0 < c) (hp : parent c = i) (hleast : ∀ j, 0 < j → parent j = i → keyAt key h c ≤ keyAt key h j) :
    Sinking key (h.swapIfInBounds i c) c := by
  have hic : i < c := hp ▸ parent_lt hpos
  have hkey := keyAt_swapIfInBounds key hi hc
  constructor
  · intro j hj hjc hpjc
    have hpj := parent_lt hj
    rw [hkey, hkey, if_neg hpjc, if_neg hjc]
    by_cases hji : j = i
    · subst hji
      rw [if_neg (by omega), if_pos rfl]
      exact hs.children c hpos hp hj
    · rw [if_neg hji]
      by_cases hchild : parent j = i
      · rw [if_pos hchild]
        exact hleast j hj hchild
      · rw [if_neg hchild]
        exact hs.others j hj hji hchild
  · intro j hj hchild _
    have hcj : c < j := hchild ▸ parent_lt hj
    rw [hkey, hkey, hp, if_neg (by omega), if_pos rfl, if_neg (by omega), if_neg (by omega)]
    have := hs.others j hj (by omega) (by omega)
    rwa [hchild] at this

/-- An entry that sinks to a leaf and rises from there ends in order. -/
theorem ordered_sink {h : Array α} {i : Nat} (hi : i < h.size) (hs : Sinking key h i) :
    Ordered key (sink before h i) := by
  fun_induction sink before h i with
  | case1 h i hlt ih =>
    obtain ⟨hc, hpos, hp, hleast⟩ := smallerChild_spec hb hlt
    refine ih ?_ (hs.swap hi hc hpos hp hleast)
    rwa [Array.size_swapIfInBounds]
  | case2 h i hleaf =>
    refine ordered_rise hb hi ⟨fun j hj hji => ?_, hs.children⟩
    by_cases hchild : parent j = i
    · rw [keyAt_of_le (i := j) (by unfold parent at hchild; omega)]
      exact le_top
    · exact hs.others j hj hji hchild

theorem ordered_dropFirst {h : Array α} (ho : Ordered key h) : Ordered key (dropFirst before h) := by
  unfold dropFirst
  by_cases hsmall : h.size ≤ 1
  · have hempty : (h.swapIfInBounds 0 (h.size - 1)).pop.size = 0 := by
      rw [Array.size_pop, Array.size_swapIfInBounds]
      omega
    intro j _
    rw [keyAt_of_le (i := j) (by rw [size_sink, hempty]; omega)]
    exact le_top
  · have hkey : ∀ j, 0 < j → j < h.size - 1 →
        keyAt key (h.swapIfInBounds 0 (h.size - 1)).pop j = keyAt key h j := by
      intro j hj hlt
      have hswap := keyAt_swapIfInBounds key (h := h) (i := 0) (j := h.size - 1) (by omega) (by omega) j
      rw [if_neg (by omega), if_neg (by omega)] at hswap
      rw [← hswap]
      unfold keyAt
      rw [Array.getElem?_pop, Array.size_swapIfInBounds, if_pos hlt]
    have hsize : (h.swapIfInBounds 0 (h.size - 1)).pop.size = h.size - 1 := by
      rw [Array.size_pop, Array.size_swapIfInBounds]
    -- the last entry stands first now, so the order may be broken below it and nowhere else
    refine ordered_sink hb (by omega) ⟨fun j hj _ hp => ?_, fun j hj hp hpos => absurd hpos (lt_irrefl 0)⟩
    have hpj := parent_lt hj
    by_cases hlt : j < h.size - 1
    · rw [hkey j hj hlt, hkey (parent j) (by omega) (by omega)]
      exact ho j hj
    · rw [keyAt_of_le (i := j) (by omega)]
      exact le_top

end

end PhaseMachine.Heap
