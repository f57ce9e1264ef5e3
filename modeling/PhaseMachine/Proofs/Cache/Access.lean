/-
What one access does to the valid lines of a cache. A hit exchanges the only line it touches for the
touched one; a miss adds the fresh line and, through the chain of victims, loses at most one line in
all. `access_cases` says so for reads and writes at once, and names what the access answers. A visit is
an access of which only the address and the stamp are looked at.
-/
import PhaseMachine.Proofs.Cache.Lines

namespace PhaseMachine.Cache.Hierarchy

/-! ## Valid lines -/

def valid (h : Hierarchy) : List Line :=
  h.l1.valid ++ (h.l2.valid ++ h.l3.valid)

/-- Every level has a line. -/
def Roomy (h : Hierarchy) : Prop :=
  ∀ t, 0 < (h.level t).size

theorem mem_valid {h : Hierarchy} {line : Line} : line ∈ h.valid ↔ ∃ t, line ∈ (h.level t).valid := by
  unfold valid
  rw [List.mem_append, List.mem_append]
  constructor
  · rintro (h1 | h2 | h3)
    · exact ⟨.l1, h1⟩
    · exact ⟨.l2, h2⟩
    · exact ⟨.l3, h3⟩
  · rintro ⟨t, ht⟩
    cases t with
    | l1 => exact .inl ht
    | l2 => exact .inr (.inl ht)
    | l3 => exact .inr (.inr ht)

/-- A new cache has empty lines in each level. -/
theorem ofSizes_ok {sizes : List Int} {demoteVictims : Bool} {h : Hierarchy}
    (hm : ofSizes sizes demoteVictims = .ok h) :
    ∃ a b c : Nat, sizes = [(a : Int), (b : Int), (c : Int)] ∧ 0 < a ∧ 0 < b ∧ 0 < c ∧
      h = { l1 := .blank a, l2 := .blank b, l3 := .blank c, demoteVictims } := by
  unfold ofSizes at hm
  split at hm
  · next a b c =>
    split at hm
    · next hpos =>
      obtain ⟨ha, hb, hc⟩ := hpos
      cases hm
      refine ⟨a.toNat, b.toNat, c.toNat, ?_, by omega, by omega, by omega, rfl⟩
      rw [Int.toNat_of_nonneg ha.le, Int.toNat_of_nonneg hb.le, Int.toNat_of_nonneg hc.le]
    · cases hm
  · cases hm

/-- So it has lines in each level, and none of them is valid. -/
theorem roomy_of_sizes {sizes : List Int} {demoteVictims : Bool} {h : Hierarchy}
    (hm : ofSizes sizes demoteVictims = .ok h) : h.Roomy ∧ h.valid = [] ∧ h.demoteVictims = demoteVictims := by
  obtain ⟨a, b, c, -, ha, hb, hc, rfl⟩ := ofSizes_ok hm
  refine ⟨fun t => ?_, ?_, rfl⟩
  · cases t with
    | l1 => exact ha.trans_eq (Level.size_blank a).symm
    | l2 => exact hb.trans_eq (Level.size_blank b).symm
    | l3 => exact hc.trans_eq (Level.size_blank c).symm
  · unfold valid
    simp only [Level.valid_blank, List.append_nil]

@[simp]
theorem locate?_clearMarks (h : Hierarchy) (a : Int) : h.clearMarks.locate? a = h.locate? a := rfl

/-! ## Looking up -/

theorem locate?_some {h : Hierarchy} {a : Int} {t : Tier} {i : Nat} (hl : h.locate? a = some (t, i)) :
    i < (h.level t).size ∧ ((h.level t).line i).valid = true ∧ ((h.level t).line i).address = a := by
  obtain ⟨u, -, hu⟩ := List.exists_of_findSome?_eq_some hl
  obtain ⟨j, hj, he⟩ := Option.map_eq_some_iff.1 hu
  cases he
  exact Level.slot?_some hj

/-- An address is not found exactly if no valid line is for it. -/
theorem locate?_eq_none {h : Hierarchy} {a : Int} :
    h.locate? a = none ↔ ∀ line ∈ h.valid, line.address ≠ a := by
  unfold locate?
  rw [List.findSome?_eq_none_iff]
  constructor
  · intro hn line hline
    obtain ⟨t, ht⟩ := mem_valid.1 hline
    have := hn t (by cases t <;> simp [Tier.all])
    exact Level.slot?_eq_none.1 (Option.map_eq_none_iff.1 this) line ht
  · intro hn t _
    rw [Option.map_eq_none_iff, Level.slot?_eq_none]
    exact fun line hline => hn line (mem_valid.2 ⟨t, hline⟩)

/-! ## A line in place of another -/

/-- The lines apart from a valid one, which an exchange of that one keeps. -/
theorem valid_exchange {h : Hierarchy} {t : Tier} {i : Nat} (hi : i < (h.level t).size)
    (hold : ((h.level t).line i).valid = true) :
    ∃ rest, h.valid.Perm ((h.level t).line i :: rest) ∧
      ∀ (line : Line) (l : Level), line.valid = true → l.lines = ((h.level t).setLine i line).lines →
        (h.setLevel t l).valid.Perm (line :: rest) := by
  obtain ⟨rest, h1, h2⟩ := Level.valid_split hi hold
  have hl : ∀ (line : Line) (l : Level), line.valid = true →
      l.lines = ((h.level t).setLine i line).lines → l.valid.Perm (line :: rest) := by
    intro line l hline hlines
    have := h2 line hline
    unfold Level.valid at this ⊢
    rwa [hlines]
  cases t with
  | l1 =>
    refine ⟨rest ++ (h.l2.valid ++ h.l3.valid), h1.append_right _, ?_⟩
    exact fun line l hline hlines => (hl line l hline hlines).append_right _
  | l2 =>
    refine ⟨h.l1.valid ++ (rest ++ h.l3.valid), ?_, ?_⟩
    · exact ((h1.append_right _).append_left _).trans List.perm_middle
    · exact fun line l hline hlines =>
        (((hl line l hline hlines).append_right _).append_left _).trans List.perm_middle
  | l3 =>
    refine ⟨h.l1.valid ++ (h.l2.valid ++ rest), ?_, ?_⟩
    · exact (((h1.append_left _).trans List.perm_middle).append_left _).trans List.perm_middle
    · exact fun line l hline hlines =>
        ((((hl line l hline hlines).append_left _).trans List.perm_middle).append_left _).trans
          List.perm_middle

/-! ## A fresh line -/

/-- What one row gives up the next takes in. -/
theorem perm_chain {incoming out lost a a' b b' : List Line} (h1 : (out ++ a').Perm (incoming ++ a))
    (h2 : (lost ++ b').Perm (out ++ b)) : (lost ++ (a' ++ b')).Perm (incoming ++ (a ++ b)) := by
  have h3 : (lost ++ (a' ++ b')).Perm (a' ++ (lost ++ b')) := List.perm_append_comm_assoc _ _ _
  have h4 : (a' ++ (out ++ b)).Perm (out ++ a' ++ b) := by
    rw [List.append_assoc]
    exact List.perm_append_comm_assoc _ _ _
  have h5 := h3.trans ((h2.append_left _).trans (h4.trans (h1.append_right _)))
  rwa [List.append_assoc] at h5

/-- The cache with each level taking in what the one above it gives up, and the line that is lost. -/
def pushed (h : Hierarchy) (line : Line) : Hierarchy × Option Line :=
  let first := h.l1.takeIn (some line)
  let second := h.l2.takeIn first.2
  let third := h.l3.takeIn second.2
  ({ h with l1 := first.1, l2 := second.1, l3 := third.1 }, third.2)

/-- Where victims are demoted, a fresh line is pushed in. -/
theorem allocate_of_demoting {h : Hierarchy} (hd : h.demoteVictims = true) (line : Line) :
    h.allocate line = (h.pushed line).1 := by
  by_cases h1 : (h.l1.line h.l1.victim).valid = true <;>
    by_cases h2 : (h.l2.line h.l2.victim).valid = true <;>
      simp [allocate, victim?, demoteToL2, demoteToL3, pushed, Level.takeIn, Option.filter, hd, h1, h2]

/-- Allocation touches only the first level unless victims are demoted. -/
theorem allocate_eq {h : Hierarchy} (hd : h.demoteVictims = false) (line : Line) :
    h.allocate line = { h with l1 := h.l1.setLine h.l1.victim line } := by
  unfold allocate
  cases h.victim? with
  | none => rfl
  | some replaced => simp only [hd, Bool.false_eq_true, if_false]

/-- The valid lines after a push are those of before and the fresh one, but for the one that is lost. -/
theorem valid_pushed {h : Hierarchy} (hr : h.Roomy) {line : Line} (hline : line.valid = true) :
    ((h.pushed line).2.toList ++ (h.pushed line).1.valid).Perm (line :: h.valid) := by
  have h1 := Level.valid_takeIn (hr .l1) fun x (hx : x ∈ some line) => Option.some.inj hx ▸ hline
  have h2 := Level.valid_takeIn (hr .l2) fun x (hx : x ∈ (h.l1.takeIn (some line)).2) =>
    Level.valid_of_takeIn hx
  have h3 := Level.valid_takeIn (hr .l3) fun x (hx : x ∈ (h.l2.takeIn (h.l1.takeIn (some line)).2).2) =>
    Level.valid_of_takeIn hx
  exact perm_chain h1 (perm_chain h2 h3)

/-- A fresh line joins the valid lines, and at most one is lost for it. -/
theorem valid_allocate {h : Hierarchy} (hr : h.Roomy) {line : Line} (hline : line.valid = true) :
    ∃ lost, lost.length ≤ 1 ∧ (lost ++ (h.allocate line).valid).Perm (line :: h.valid) := by
  by_cases hd : h.demoteVictims = true
  · rw [allocate_of_demoting hd]
    exact ⟨_, Option.length_toList_le, valid_pushed hr hline⟩
  · rw [allocate_eq (Bool.eq_false_iff.2 hd)]
    have h1 := (Level.valid_setLine (Level.victim_lt (hr .l1)) hline).append_right (h.l2.valid ++ h.l3.valid)
    rw [List.append_assoc] at h1
    exact ⟨_, List.length_filter_le (·.valid) [h.l1.line h.l1.victim], h1⟩

/-! ## Access -/

/-- The level that serves a hit, afterwards. -/
def served (h : Hierarchy) (touch : Line → Line) (fresh : Line) (t : Tier) (i : Nat) : Level :=
  let line := { touch ((h.clearMarks.level t).line i) with lastAccessed := fresh.lastAccessed }
  { (h.clearMarks.level t).setLine i line with
    hits := (h.level t).hits + 1
    mark := some { address := fresh.address, hit := true, asFlag := fresh.asFlag } }

theorem access_of_some {h : Hierarchy} {touch : Line → Line} {fresh : Line} {t : Tier} {i : Nat}
    (hl : h.locate? fresh.address = some (t, i)) :
    h.access touch fresh = (h.clearMarks.setLevel t (h.served touch fresh t i),
      ⟨t, true, (touch ((h.level t).line i)).value, none⟩) := by
  unfold access
  simp only [locate?_clearMarks, hl]
  cases t <;> rfl

/-- The first level at a miss, before the fresh line comes in. -/
def missed (h : Hierarchy) (fresh : Line) : Hierarchy :=
  { h.clearMarks with
    l1 := { h.clearMarks.l1 with
      misses := h.l1.misses + 1
      mark := some { address := fresh.address, hit := false, asFlag := fresh.asFlag } } }

@[simp]
theorem lines_missed (h : Hierarchy) (fresh : Line) (t : Tier) :
    ((h.missed fresh).level t).lines = (h.level t).lines := by
  cases t <;> rfl

theorem Roomy.missed {h : Hierarchy} (hr : h.Roomy) (fresh : Line) : (h.missed fresh).Roomy := by
  intro t
  unfold Level.size
  rw [lines_missed]
  exact hr t

theorem access_of_none {h : Hierarchy} {touch : Line → Line} {fresh : Line}
    (hl : h.locate? fresh.address = none) :
    h.access touch fresh = ((h.missed fresh).allocate fresh, ⟨.l1, false, fresh.value, h.victim?⟩) := by
  unfold access
  simp only [locate?_clearMarks, hl]
  rfl

/-- Every access either touches the one line it finds, or brings in the fresh line when no valid line
is for the address. -/
theorem access_cases {h : Hierarchy} (hr : h.Roomy) (touch : Line → Line) (fresh : Line)
    (hfresh : fresh.valid = true) (htouch : ∀ line, (touch line).valid = line.valid) :
    (∃ old rest, (h.access touch fresh).2.value = (touch old).value ∧ old.address = fresh.address ∧
      h.valid.Perm (old :: rest) ∧
      (h.access touch fresh).1.valid.Perm
        ({ touch old with lastAccessed := fresh.lastAccessed } :: rest)) ∨
    (∃ lost, (h.access touch fresh).2.value = fresh.value ∧
      (∀ line ∈ h.valid, line.address ≠ fresh.address) ∧
      (lost ++ (h.access touch fresh).1.valid).Perm (fresh :: h.valid)) := by
  cases hl : h.locate? fresh.address with
  | some place =>
    obtain ⟨t, i⟩ := place
    obtain ⟨hi, hv, ha⟩ := locate?_some hl
    obtain ⟨rest, h1, h2⟩ := valid_exchange hi hv
    refine .inl ⟨(h.level t).line i, rest, ?_, ha, h1, ?_⟩
    · rw [access_of_some hl]
    · rw [access_of_some hl]
      have hs := h2 { touch ((h.level t).line i) with lastAccessed := fresh.lastAccessed }
        (h.served touch fresh t i) (by rw [htouch]; exact hv) (by cases t <;> rfl)
      have he : (h.clearMarks.setLevel t (h.served touch fresh t i)).valid =
          (h.setLevel t (h.served touch fresh t i)).valid := by
        cases t <;> rfl
      rw [he]
      exact hs
  | none =>
    obtain ⟨lost, -, hp⟩ := valid_allocate (hr.missed fresh) hfresh
    refine .inr ⟨lost, ?_, locate?_eq_none.1 hl, ?_⟩
    · rw [access_of_none hl]
    · rw [access_of_none hl]
      exact hp

/-! ## Visits -/

/-- The cache after an access to an address with a stamp, whatever it did to the value. -/
def Visited (h k : Hierarchy) (address stamp : Int) : Prop :=
  ∃ (touch : Line → Line) (fresh : Line), k = (h.access touch fresh).1 ∧ fresh.valid = true ∧
    (∀ line, (touch line).valid = line.valid ∧ (touch line).address = line.address) ∧
    fresh.address = address ∧ fresh.lastAccessed = stamp

theorem visited_check (h : Hierarchy) (address stored cycle : Int) (asFlag : Bool) :
    h.Visited (h.check address stored cycle asFlag).1 address cycle :=
  ⟨_, _, rfl, rfl, fun _ => ⟨rfl, rfl⟩, rfl, rfl⟩

theorem visited_update (h : Hierarchy) (address value cycle : Int) (asFlag : Bool) :
    h.Visited (h.update address value cycle asFlag).1 address cycle :=
  ⟨_, _, rfl, rfl, fun _ => ⟨rfl, rfl⟩, rfl, rfl⟩

/-- A valid line after a visit is stamped by it and for its address, or it was there before and is for
another address. -/
theorem Visited.valid_line {h k : Hierarchy} {address stamp : Int} (hv : h.Visited k address stamp)
    (hr : h.Roomy) (hd : (h.valid.map (·.address)).Nodup) {line : Line} (hline : line ∈ k.valid) :
    (line.address = address ∧ line.lastAccessed = stamp) ∨ (line ∈ h.valid ∧ line.address ≠ address) := by
  obtain ⟨touch, fresh, rfl, hfresh, htouch, rfl, rfl⟩ := hv
  rcases access_cases hr touch fresh hfresh (fun line => (htouch line).1) with
    ⟨old, rest, -, hold, h1, h2⟩ | ⟨lost, -, hno, hp⟩
  · rcases List.mem_cons.1 (h2.mem_iff.1 hline) with rfl | hline
    · exact .inl ⟨(htouch old).2.trans hold, rfl⟩
    · refine .inr ⟨h1.mem_iff.2 (List.mem_cons_of_mem _ hline), fun ha => ?_⟩
      have hd' := (h1.map (·.address)).nodup_iff.1 hd
      rw [List.map_cons, List.nodup_cons] at hd'
      exact hd'.1 (hold.trans ha.symm ▸ List.mem_map_of_mem hline)
  · rcases List.mem_cons.1 (hp.mem_iff.1 (List.mem_append_right _ hline)) with rfl | hline
    · exact .inl ⟨rfl, rfl⟩
    · exact .inr ⟨hline, hno line hline⟩

/-- A visit that no level can serve puts a line for its address in the place of the victim. -/
theorem Visited.of_miss {h k : Hierarchy} {address stamp : Int} (hv : h.Visited k address stamp)
    (hmiss : h.locate? address = none) :
    ∃ fresh : Line, fresh.valid = true ∧ fresh.address = address ∧
      k.l1.lines = h.l1.lines.set h.l1.victim fresh := by
  obtain ⟨touch, fresh, rfl, hfresh, -, rfl, rfl⟩ := hv
  refine ⟨fresh, hfresh, rfl, ?_⟩
  rw [access_of_none hmiss]
  rfl

/-! ## What stays -/

/-- As many lines in each level, and the same rule for victims. -/
structure SameShape (h k : Hierarchy) : Prop where
  size : ∀ t, (k.level t).size = (h.level t).size
  demotes : k.demoteVictims = h.demoteVictims

theorem SameShape.refl (h : Hierarchy) : h.SameShape h :=
  ⟨fun _ => rfl, rfl⟩

theorem SameShape.trans {h k l : Hierarchy} (h1 : h.SameShape k) (h2 : k.SameShape l) : h.SameShape l :=
  ⟨fun t => (h2.size t).trans (h1.size t), h2.demotes.trans h1.demotes⟩

theorem SameShape.roomy {h k : Hierarchy} (hs : h.SameShape k) (hr : h.Roomy) : k.Roomy := by
  intro t
  rw [hs.size t]
  exact hr t

theorem sameShape_setLevel {h : Hierarchy} {t : Tier} {l : Level} (hl : l.size = (h.level t).size) :
    h.SameShape (h.setLevel t l) := by
  refine ⟨fun u => ?_, by cases t <;> rfl⟩
  rw [level_setLevel]
  split
  · next htu => rw [← htu]; exact hl
  · rfl

theorem sameShape_clearMarks (h : Hierarchy) : h.SameShape h.clearMarks :=
  ⟨fun t => by cases t <;> rfl, rfl⟩

theorem sameShape_allocate (h : Hierarchy) (line : Line) : h.SameShape (h.allocate line) := by
  by_cases hd : h.demoteVictims = true
  · rw [allocate_of_demoting hd]
    exact ⟨fun t => by cases t <;> exact Level.size_takeIn .., rfl⟩
  · rw [allocate_eq (Bool.eq_false_iff.2 hd)]
    exact sameShape_setLevel (t := .l1) (Level.size_setLine ..)

/-- An access changes neither the number of lines nor the rule for victims. -/
theorem sameShape_access (h : Hierarchy) (touch : Line → Line) (fresh : Line) :
    h.SameShape (h.access touch fresh).1 := by
  cases hl : h.locate? fresh.address with
  | some place =>
    obtain ⟨t, i⟩ := place
    rw [access_of_some hl]
    refine (sameShape_clearMarks h).trans (sameShape_setLevel ?_)
    exact Level.size_setLine ..
  | none =>
    rw [access_of_none hl]
    have h1 : h.SameShape (h.missed fresh) := ⟨fun t => by cases t <;> rfl, rfl⟩
    exact h1.trans (sameShape_allocate _ _)

theorem sameShape_check (h : Hierarchy) (address stored cycle : Int) (asFlag : Bool) :
    h.SameShape (h.check address stored cycle asFlag).1 :=
  sameShape_access h _ _

theorem sameShape_update (h : Hierarchy) (address value cycle : Int) (asFlag : Bool) :
    h.SameShape (h.update address value cycle asFlag).1 :=
  sameShape_access h _ _

end PhaseMachine.Cache.Hierarchy
