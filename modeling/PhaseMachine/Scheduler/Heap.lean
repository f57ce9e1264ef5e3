/-
Binary heaps in arrays: the children of place `i` are at `2 i + 1` and `2 i + 2`, and none comes
before its parent. Adding an entry lets it rise from the end. Taking the first one lets the last
entry sink from the top to a leaf and rise from there.
-/

namespace PhaseMachine.Heap

variable {α : Type} (before : α → α → Bool)

def parent (i : Nat) : Nat :=
  (i - 1) / 2

def precedes (h : Array α) (i j : Nat) : Bool :=
  match h[i]?, h[j]? with
  | some a, some b => before a b
  | _, _ => false

/-- The entry at a place moved up past the parents that it comes before. -/
def rise (h : Array α) (i : Nat) : Array α :=
  if _hi : 0 < i then
    if precedes before h i (parent i) then rise (h.swapIfInBounds i (parent i)) (parent i) else h
  else h
termination_by i
decreasing_by simp only [parent]; omega

/-- The child that moves up when the entry at `i` sinks: the right one, if there is one, unless the
left one comes before it. -/
def smallerChild (h : Array α) (i : Nat) : Nat :=
  if 2 * i + 2 < h.size ∧ precedes before h (2 * i + 1) (2 * i + 2) = false then 2 * i + 2
  else 2 * i + 1

/-- The entry at a place moved down to a leaf and then up to its place. -/
def sink (h : Array α) (i : Nat) : Array α :=
  if 2 * i + 1 < h.size then
    sink (h.swapIfInBounds i (smallerChild before h i)) (smallerChild before h i)
  else rise before h i
termination_by h.size - i
decreasing_by
  rw [Array.size_swapIfInBounds]
  unfold smallerChild
  split <;> omega

def push (h : Array α) (a : α) : Array α :=
  rise before (h.push a) h.size

def dropFirst (h : Array α) : Array α :=
  sink before (h.swapIfInBounds 0 (h.size - 1)).pop 0

/-! ## Size -/

theorem size_rise (h : Array α) (i : Nat) : (rise before h i).size = h.size := by
  fun_induction rise before h i with
  | case1 h i _ _ ih => rw [ih, Array.size_swapIfInBounds]
  | case2 => rfl
  | case3 => rfl

theorem size_sink (h : Array α) (i : Nat) : (sink before h i).size = h.size := by
  fun_induction sink before h i with
  | case1 h i _ ih => rw [ih, Array.size_swapIfInBounds]
  | case2 h i => exact size_rise before h i

/-! ## Entries -/

theorem perm_swapIfInBounds (h : Array α) (i j : Nat) : (h.swapIfInBounds i j).toList.Perm h.toList := by
  rw [Array.swapIfInBounds_def]
  split
  · split
    · exact Array.perm_iff_toList_perm.mp (Array.swap_perm _ _)
    · exact .refl _
  · exact .refl _

theorem perm_rise (h : Array α) (i : Nat) : (rise before h i).toList.Perm h.toList := by
  fun_induction rise before h i with
  | case1 h i _ _ ih => exact ih.trans (perm_swapIfInBounds h _ _)
  | case2 => exact .refl _
  | case3 => exact .refl _

theorem perm_sink (h : Array α) (i : Nat) : (sink before h i).toList.Perm h.toList := by
  fun_induction sink before h i with
  | case1 h i _ ih => exact ih.trans (perm_swapIfInBounds h _ _)
  | case2 h i => exact perm_rise before h i

/-- A push adds one entry and keeps the others. -/
theorem perm_push (h : Array α) (a : α) : (push before h a).toList.Perm (a :: h.toList) := by
  refine (perm_rise before _ _).trans ?_
  rw [Array.toList_push]
  exact List.perm_append_singleton a h.toList

theorem perm_pop (h : Array α) (hpos : 0 < h.size) : (h[h.size - 1] :: h.pop.toList).Perm h.toList := by
  have hne : h.toList ≠ [] := by
    intro hnil
    rw [← Array.length_toList, hnil] at hpos
    exact Nat.lt_irrefl 0 hpos
  have hlast : h[h.size - 1] = h.toList.getLast hne := by
    rw [List.getLast_eq_getElem]
    rfl
  rw [Array.toList_pop, hlast]
  refine (List.perm_append_singleton _ _).symm.trans ?_
  rw [List.dropLast_concat_getLast]

/-- Dropping the first entry keeps the others. -/
theorem perm_dropFirst (h : Array α) (hpos : 0 < h.size) :
    (h[0] :: (dropFirst before h).toList).Perm h.toList := by
  have hlast : h.size - 1 < h.size := by omega
  have hswap : h.swapIfInBounds 0 (h.size - 1) = h.swap 0 (h.size - 1) := by
    rw [Array.swapIfInBounds_def, dif_pos hpos, dif_pos hlast]
  have hsize : (h.swap 0 (h.size - 1)).size = h.size := Array.size_swap
  have hfirst : (h.swap 0 (h.size - 1))[(h.swap 0 (h.size - 1)).size - 1] = h[0] := by
    simp only [hsize]
    exact Array.getElem_swap_right
  have hpop := perm_pop (h.swap 0 (h.size - 1)) (by omega)
  rw [hfirst] at hpop
  refine ((perm_sink before _ _).cons _).trans ?_
  rw [hswap]
  exact hpop.trans (Array.perm_iff_toList_perm.mp (Array.swap_perm hpos hlast))

end PhaseMachine.Heap
