/-
The valid lines of a cache, as one list in which places do not count, and what each operation does
to that list up to order: a hit exchanges the one line it finds, a miss adds the fresh line and
loses at most one. A row that has a line at all has a victim; if all its lines are valid, the victim
is one of those accessed longest ago by their stamps. A row that takes a line in gives up its victim.
-/
import PhaseMachine.Cache.Hierarchy
import Mathlib.Data.List.Perm.Basic
import Mathlib.Tactic

namespace PhaseMachine.Cache

/-! ## One row of lines -/

/-- Some line has a stamp that no other is below. -/
theorem exists_oldest : ∀ {lines : List Line}, lines ≠ [] →
    ∃ line ∈ lines, ∀ other ∈ lines, line.lastAccessed ≤ other.lastAccessed
  | [], h => absurd rfl h
  | [a], _ => ⟨a, List.mem_singleton_self a, fun b hb => by rw [List.mem_singleton.1 hb]⟩
  | a :: b :: rest, _ => by
    obtain ⟨line, hline, hle⟩ := exists_oldest (List.cons_ne_nil b rest)
    by_cases ha : a.lastAccessed ≤ line.lastAccessed
    · refine ⟨a, List.mem_cons_self .., fun other ho => ?_⟩
      rcases List.mem_cons.1 ho with rfl | ho
      · exact le_refl _
      · exact le_trans ha (hle other ho)
    · refine ⟨line, List.mem_cons_of_mem _ hline, fun other ho => ?_⟩
      rcases List.mem_cons.1 ho with rfl | ho
      · exact le_of_not_ge ha
      · exact hle other ho

namespace Level

def valid (l : Level) : List Line :=
  l.lines.filter (·.valid)

theorem mem_valid {l : Level} {line : Line} : line ∈ l.valid ↔ line ∈ l.lines ∧ line.valid = true :=
  List.mem_filter

theorem line_eq {l : Level} {i : Nat} (h : i < l.lines.length) : l.line i = l.lines[i] := by
  unfold line
  exact (List.getElem_eq_getD _).symm

theorem line_mem {l : Level} {i : Nat} (h : i < l.size) : l.line i ∈ l.lines := by
  rw [line_eq h]
  exact List.getElem_mem h

/-- Setting a place changes the line there only. -/
theorem line_of_set {l k : Level} {i : Nat} {new : Line} (hk : k.lines = l.lines.set i new)
    (hi : i < l.size) (j : Nat) : k.line j = if i = j then new else l.line j := by
  unfold line
  rw [hk, List.getD_eq_getElem?_getD, List.getElem?_set, List.getD_eq_getElem?_getD]
  by_cases he : i = j
  · subst he
    simp [show i < l.lines.length from hi]
  · simp [he]

@[simp]
theorem size_setLine (l : Level) (i : Nat) (line : Line) : (l.setLine i line).size = l.size :=
  List.length_set

@[simp]
theorem size_blank (n : Nat) : (blank n).size = n :=
  List.length_replicate

theorem valid_blank (n : Nat) : (blank n).valid = [] := by
  unfold valid blank
  rw [List.filter_replicate_of_neg]
  simp

/-- The lines apart from the one at a place, which setting that place keeps. -/
theorem valid_split {l : Level} {i : Nat} (h : i < l.size) (hold : (l.line i).valid = true) :
    ∃ rest, l.valid.Perm (l.line i :: rest) ∧
      ∀ line : Line, line.valid = true → (l.setLine i line).valid.Perm (line :: rest) := by
  refine ⟨(l.lines.eraseIdx i).filter (·.valid), ?_, fun line hline => ?_⟩
  · have := (List.getElem_cons_eraseIdx_perm h).symm.filter (·.valid)
    rw [← line_eq h, List.filter_cons_of_pos (by exact hold)] at this
    exact this
  · have := (List.set_perm_cons_eraseIdx h line).filter (·.valid)
    rw [List.filter_cons_of_pos (by exact hline)] at this
    exact this

/-- A valid line put at a place adds itself and costs the line there, if that is valid. -/
theorem valid_setLine {l : Level} {i : Nat} (h : i < l.size) {line : Line} (hline : line.valid = true) :
    ([l.line i].filter (·.valid) ++ (l.setLine i line).valid).Perm (line :: l.valid) := by
  by_cases hold : (l.line i).valid = true
  · obtain ⟨rest, h1, h2⟩ := valid_split h hold
    rw [List.filter_cons_of_pos (by exact hold)]
    exact ((h2 line hline).cons _).trans ((List.Perm.swap ..).trans (h1.symm.cons _))
  · have h1 := (List.getElem_cons_eraseIdx_perm h).filter (·.valid)
    have h2 := (List.set_perm_cons_eraseIdx h line).filter (·.valid)
    rw [← line_eq h, List.filter_cons_of_neg (by exact hold)] at h1
    rw [List.filter_cons_of_pos (by exact hline)] at h2
    rw [List.filter_cons_of_neg (by exact hold)]
    exact h2.trans (h1.cons _)

/-! ## The victim -/

def Full (l : Level) : Prop :=
  ∀ line ∈ l.lines, line.valid = true

/-- The place of the first of the lines with the least stamp. -/
def IsOldest (l : Level) (i : Nat) : Prop :=
  i < l.size ∧ (∀ line ∈ l.lines, (l.line i).lastAccessed ≤ line.lastAccessed) ∧
    ∀ j < i, (l.line i).lastAccessed < (l.line j).lastAccessed

/-- A row with an empty line gives up its first one. -/
theorem victim_of_empty {l : Level} {line : Line} (h : line ∈ l.lines) (he : line.valid = false) :
    l.victim < l.size ∧ (l.line l.victim).valid = false := by
  unfold victim
  cases hf : l.lines.findIdx? (fun line => !line.valid) with
  | none =>
    have := List.findIdx?_eq_none_iff.1 hf line h
    rw [he] at this
    cases this
  | some i =>
    obtain ⟨hi, hp, -⟩ := List.findIdx?_eq_some_iff_getElem.1 hf
    refine ⟨hi, ?_⟩
    rw [line_eq hi]
    simpa using hp

/-- A full row gives up the first of the lines with the least stamp. -/
theorem victim_of_full {l : Level} (hs : 0 < l.size) (hfull : l.Full) : l.IsOldest l.victim := by
  have hnone : l.lines.findIdx? (fun line => !line.valid) = none := by
    rw [List.findIdx?_eq_none_iff]
    intro line hline
    rw [hfull line hline]; rfl
  have hv : l.victim =
      l.lines.findIdx fun line => l.lines.all fun other => line.lastAccessed ≤ other.lastAccessed := by
    unfold victim
    rw [hnone]
  obtain ⟨oldest, ho, hle⟩ := exists_oldest (List.ne_nil_of_length_pos hs)
  have hi : l.victim < l.lines.length := by
    rw [hv]
    exact List.findIdx_lt_length_of_exists ⟨oldest, ho, by simpa using hle⟩
  have hleast : ∀ other ∈ l.lines, (l.line l.victim).lastAccessed ≤ other.lastAccessed := by
    intro other hother
    have hp := List.findIdx_getElem (w := hv ▸ hi)
    have := List.all_eq_true.1 hp other hother
    rw [line_eq hi]
    simp only [hv]
    exact of_decide_eq_true this
  refine ⟨hi, hleast, fun j hj => ?_⟩
  have := List.not_of_lt_findIdx (hv ▸ hj)
  simp only [List.all_eq_false, decide_eq_true_eq, not_le] at this
  obtain ⟨other, hother, hlt⟩ := this
  rw [line_eq (hj.trans hi)]
  exact lt_of_le_of_lt (hleast other hother) hlt

theorem victim_lt {l : Level} (hs : 0 < l.size) : l.victim < l.size := by
  by_cases hfull : l.Full
  · exact (victim_of_full hs hfull).1
  · unfold Full at hfull
    push Not at hfull
    obtain ⟨line, hline, he⟩ := hfull
    exact (victim_of_empty hline (Bool.eq_false_iff.2 he)).1

/-- The victim is a valid line exactly if all lines are. -/
theorem valid_victim_iff {l : Level} (hs : 0 < l.size) : (l.line l.victim).valid = true ↔ l.Full := by
  constructor
  · intro hv line hline
    by_contra he
    have := (victim_of_empty hline (Bool.eq_false_iff.2 he)).2
    rw [hv] at this
    cases this
  · exact fun hfull => hfull _ (line_mem (victim_of_full hs hfull).1)

/-! ## Taking a line in -/

/-- The row with a line in place of its victim, and the victim if that was valid. Without a line the row
stays as it is. -/
def takeIn (l : Level) : Option Line → Level × Option Line
  | none => (l, none)
  | some line => (l.setLine l.victim line, (some (l.line l.victim)).filter (·.valid))

variable {l : Level} {incoming : Option Line}

theorem valid_of_takeIn {out : Line} (h : out ∈ (l.takeIn incoming).2) : out.valid = true := by
  cases incoming with
  | none => cases h
  | some line =>
    rw [takeIn, Option.mem_filter_iff] at h
    exact h.2

/-- A row gives a line up exactly if it takes one in while it is full. -/
theorem isSome_takeIn (hs : 0 < l.size) :
    (l.takeIn incoming).2.isSome = true ↔ incoming.isSome = true ∧ l.Full := by
  cases incoming with
  | none => simp [takeIn]
  | some line =>
    rw [← valid_victim_iff hs]
    simp [takeIn, Option.filter]

/-- It is the first of those with the least stamp. -/
theorem isOldest_of_takeIn (hs : 0 < l.size) {out : Line} (h : out ∈ (l.takeIn incoming).2) :
    l.IsOldest l.victim ∧ l.line l.victim = out := by
  cases incoming with
  | none => cases h
  | some line =>
    rw [takeIn, Option.mem_filter_iff] at h
    obtain ⟨he, hv⟩ := h
    have he : l.line l.victim = out := Option.some.inj he
    exact ⟨victim_of_full hs ((valid_victim_iff hs).1 (he ▸ hv)), he⟩

theorem takeIn_of_full (hs : 0 < l.size) (hfull : l.Full) (line : Line) :
    (l.takeIn (some line)).2 = some (l.line l.victim) := by
  simp [takeIn, Option.filter, (valid_victim_iff hs).2 hfull]

theorem mem_valid_takeIn (hs : 0 < l.size) {line : Line} (hline : line.valid = true) :
    line ∈ (l.takeIn (some line)).1.valid :=
  mem_valid.2 ⟨List.mem_set (victim_lt hs) line, hline⟩

/-- The lines that are given up and those that stay are the lines of before and the one taken in. -/
theorem valid_takeIn (hs : 0 < l.size) (hv : ∀ line ∈ incoming, line.valid = true) :
    ((l.takeIn incoming).2.toList ++ (l.takeIn incoming).1.valid).Perm (incoming.toList ++ l.valid) := by
  cases incoming with
  | none => exact .refl _
  | some line =>
    have hset := valid_setLine (victim_lt hs) (hv line rfl)
    have hout : ((some (l.line l.victim)).filter (·.valid)).toList = [l.line l.victim].filter (·.valid) := by
      by_cases hvalid : (l.line l.victim).valid = true <;> simp [Option.filter, hvalid]
    unfold takeIn
    rw [hout]
    exact hset

/-- No line less is valid than before. -/
theorem length_valid_takeIn (hs : 0 < l.size) (hv : ∀ line ∈ incoming, line.valid = true) :
    l.valid.length ≤ (l.takeIn incoming).1.valid.length := by
  have hlen := (valid_takeIn hs hv).length_eq
  rw [List.length_append, List.length_append] at hlen
  have hout : (l.takeIn incoming).2.toList.length ≤ incoming.toList.length := by
    cases incoming with
    | none => exact le_refl _
    | some line => exact Option.length_toList_le
  omega

@[simp]
theorem size_takeIn (l : Level) (incoming : Option Line) : (l.takeIn incoming).1.size = l.size := by
  cases incoming with
  | none => rfl
  | some line => exact size_setLine ..

/-! ## Looking up -/

/-- The slot of an address holds a valid line for it. -/
theorem slot?_some {l : Level} {a : Int} {i : Nat} (h : l.slot? a = some i) :
    i < l.size ∧ (l.line i).valid = true ∧ (l.line i).address = a := by
  obtain ⟨hi, hp, -⟩ := List.findIdx?_eq_some_iff_getElem.1 h
  rw [Bool.and_eq_true, beq_iff_eq] at hp
  exact ⟨hi, by rw [line_eq hi]; exact hp.1, by rw [line_eq hi]; exact hp.2⟩

/-- An address has no slot exactly if no valid line is for it. -/
theorem slot?_eq_none {l : Level} {a : Int} : l.slot? a = none ↔ ∀ line ∈ l.valid, line.address ≠ a := by
  unfold slot?
  rw [List.findIdx?_eq_none_iff]
  constructor
  · intro h line hline heq
    obtain ⟨hm, hv⟩ := mem_valid.1 hline
    have := h line hm
    rw [hv, heq] at this
    simp at this
  · intro h line hm
    by_cases hv : line.valid = true
    · have := h line (mem_valid.2 ⟨hm, hv⟩)
      simp [hv, this]
    · simp [hv]

end Level

end PhaseMachine.Cache
