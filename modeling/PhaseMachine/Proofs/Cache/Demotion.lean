/-
Demotion loses nothing that has a place and repeats nothing. Where victims are demoted, a request that
finds a line changes that one slot. A request that finds none leaves the lines of before and the fresh
one; only if all three levels were full is one of them lost, the first of those with the least stamp in
the third level. No level ever has fewer valid lines than before, unless the cache is reset.
-/
import PhaseMachine.Proofs.Cache.Calls

namespace PhaseMachine.Cache.Hierarchy

variable {h k : Hierarchy} {r : Request}

/-! ## Hits -/

/-- Each slot holds the line it held, which may have been touched if it is for the address. -/
def SameSlots (h k : Hierarchy) (r : Request) : Prop :=
  ∀ t, (k.level t).size = (h.level t).size ∧ ∀ i < (h.level t).size,
    (k.level t).line i = (h.level t).line i ∨
      ((h.level t).line i).valid = true ∧ ((h.level t).line i).address = r.address ∧
        (k.level t).line i = r.touched ((h.level t).line i)

theorem sameSlots_of_hit (hhit : (h.serve r).2.hit = true) : h.SameSlots (h.serve r).1 r := by
  cases hl : h.locate? r.address with
  | none =>
    rw [(serve_of_none hl).1] at hhit
    cases hhit
  | some place =>
    obtain ⟨t, i⟩ := place
    obtain ⟨hi, hv, ha⟩ := locate?_some hl
    refine fun u => ⟨(sameShape_serve h r).size u, fun j hj => ?_⟩
    obtain ⟨hlines, -, -⟩ := (serve_of_some hl).2 u
    by_cases hu : u = t
    · subst hu
      rw [if_pos rfl] at hlines
      rw [Level.line_of_set hlines hi]
      split
      · next he =>
        subst he
        exact .inr ⟨hv, ha, rfl⟩
      · exact .inl rfl
    · rw [if_neg hu] at hlines
      exact .inl (by unfold Level.line; rw [hlines])

/-! ## Misses -/

/-- What a fresh line does to the lines: it is in the first level, a full level gave the first of its
lines with the least stamp to the next one, and only from three full levels is a line lost. -/
structure Conserves (h k : Hierarchy) (fresh : Line) : Prop where
  lines : ∃ lost : Option Line, (lost.toList ++ k.valid).Perm (fresh :: h.valid) ∧
    (lost.isSome = true ↔ ∀ t, (h.level t).Full) ∧ ∀ line ∈ lost, ∃ i, h.l3.IsOldest i ∧ h.l3.line i = line
  first : fresh ∈ k.l1.valid
  second : h.l1.Full → ∃ i, h.l1.IsOldest i ∧ k.l1.lines = h.l1.lines.set i fresh ∧ h.l1.line i ∈ k.l2.valid
  third : h.l1.Full → h.l2.Full → ∃ i, h.l2.IsOldest i ∧
    (∃ line ∈ h.l1.valid, k.l2.lines = h.l2.lines.set i line) ∧ h.l2.line i ∈ k.l3.valid

theorem conserves_pushed (hr : h.Roomy) {line : Line} (hline : line.valid = true) :
    h.Conserves (h.pushed line).1 line := by
  have h1 : 0 < h.l1.size := hr .l1
  have h2 : 0 < h.l2.size := hr .l2
  have h3 : 0 < h.l3.size := hr .l3
  have hpassed : h.l1.Full → (h.l1.takeIn (some line)).2 = some (h.l1.line h.l1.victim) := fun hfull =>
    Level.takeIn_of_full h1 hfull line
  have hvalid : h.l1.Full → (h.l1.line h.l1.victim).valid = true := (Level.valid_victim_iff h1).2
  refine ⟨⟨(h.pushed line).2, valid_pushed hr hline, ?_, fun out hout => ?_⟩, ?_, fun hfull => ?_,
    fun hfull hfull2 => ?_⟩
  · have hlost : (h.pushed line).2.isSome = true ↔
        (((some line).isSome = true ∧ h.l1.Full) ∧ h.l2.Full) ∧ h.l3.Full := by
      unfold pushed
      dsimp only
      rw [Level.isSome_takeIn h3, Level.isSome_takeIn h2, Level.isSome_takeIn h1]
    rw [hlost]
    constructor
    · rintro ⟨⟨⟨-, hf1⟩, hf2⟩, hf3⟩ t
      cases t <;> assumption
    · exact fun hf => ⟨⟨⟨rfl, hf .l1⟩, hf .l2⟩, hf .l3⟩
  · exact ⟨_, Level.isOldest_of_takeIn h3 hout⟩
  · exact Level.mem_valid_takeIn h1 hline
  · refine ⟨h.l1.victim, Level.victim_of_full h1 hfull, rfl, ?_⟩
    unfold pushed
    dsimp only
    rw [hpassed hfull]
    exact Level.mem_valid_takeIn h2 (hvalid hfull)
  · refine ⟨h.l2.victim, Level.victim_of_full h2 hfull2, ⟨h.l1.line h.l1.victim, ?_, ?_⟩, ?_⟩
    · exact Level.mem_valid.2 ⟨Level.line_mem (Level.victim_lt h1), hvalid hfull⟩
    · unfold pushed
      dsimp only
      rw [hpassed hfull]
      rfl
    · unfold pushed
      dsimp only
      rw [hpassed hfull, Level.takeIn_of_full h2 hfull2]
      exact Level.mem_valid_takeIn h3 ((Level.valid_victim_iff h2).2 hfull2)

theorem conserves_of_miss (hr : h.Roomy) (hd : h.demoteVictims = true) (hmiss : (h.serve r).2.hit = false) :
    h.Conserves (h.serve r).1 r.fresh := by
  cases hl : h.locate? r.address with
  | some place =>
    rw [(serve_of_some hl).1] at hmiss
    cases hmiss
  | none =>
    rw [(serve_of_none hl).2, allocate_of_demoting (h := h.missed r.fresh) hd]
    -- counting the miss and marking it leaves the lines
    have hc := conserves_pushed (hr.missed r.fresh) r.valid_fresh
    obtain ⟨lost, hp, hiff, hold⟩ := hc.lines
    refine ⟨⟨lost, hp, hiff.trans ?_, hold⟩, hc.first, hc.second, hc.third⟩
    exact forall_congr' fun t => by cases t <;> exact Iff.rfl

/-! ## Numbers of valid lines -/

theorem length_valid_pushed (hr : h.Roomy) {line : Line} (hline : line.valid = true) (t : Tier) :
    (h.level t).valid.length ≤ ((h.pushed line).1.level t).valid.length := by
  cases t with
  | l1 => exact Level.length_valid_takeIn (hr .l1) fun x (hx : x ∈ some line) => Option.some.inj hx ▸ hline
  | l2 =>
    exact Level.length_valid_takeIn (hr .l2) fun x (hx : x ∈ (h.l1.takeIn (some line)).2) =>
      Level.valid_of_takeIn hx
  | l3 =>
    exact Level.length_valid_takeIn (hr .l3) fun x (hx : x ∈ (h.l2.takeIn (h.l1.takeIn (some line)).2).2) =>
      Level.valid_of_takeIn hx

/-- A line that is touched stays valid, so the number stays. -/
theorem length_valid_of_hit (hhit : (h.serve r).2.hit = true) (t : Tier) :
    ((h.serve r).1.level t).valid.length = (h.level t).valid.length := by
  cases hl : h.locate? r.address with
  | none =>
    rw [(serve_of_none hl).1] at hhit
    cases hhit
  | some place =>
    obtain ⟨u, i⟩ := place
    obtain ⟨⟨rest, h1, h2⟩, hother⟩ := valid_of_some hl
    by_cases ht : t = u
    · subst ht
      rw [h1.length_eq, h2.length_eq]
      rfl
    · rw [hother t ht]

theorem length_valid_call (hr : h.Roomy) (hd : h.demoteVictims = true) {c : Call} (hc : c ≠ .reset) (t : Tier) :
    (h.level t).valid.length ≤ ((h.call c).level t).valid.length := by
  cases c with
  | reset => exact absurd rfl hc
  | clearMarks => cases t <;> exact le_refl _
  | serve r =>
    show (h.level t).valid.length ≤ ((h.serve r).1.level t).valid.length
    cases hl : h.locate? r.address with
    | some place => exact (length_valid_of_hit (serve_of_some hl).1 t).ge
    | none =>
      rw [(serve_of_none hl).2, allocate_of_demoting (h := h.missed r.fresh) hd]
      have hmissed : ((h.missed r.fresh).level t).valid = (h.level t).valid :=
        congrArg (List.filter _) (lines_missed h r.fresh t)
      rw [← hmissed]
      exact length_valid_pushed (hr.missed r.fresh) r.valid_fresh t

/-! ## Any calls -/

/-- Whatever was called on a cache that demotes victims: a request that finds a line moves no line, one
that finds none conserves the lines, and only a reset takes valid lines from a level. -/
theorem demotion_conserves {sizes : List Int} {made : Hierarchy} (hm : ofSizes sizes true = .ok made)
    (calls : List Call) :
    (∀ r, ((made.afterCalls calls).serve r).2.hit = true →
      (made.afterCalls calls).SameSlots ((made.afterCalls calls).serve r).1 r) ∧
    (∀ r, ((made.afterCalls calls).serve r).2.hit = false →
      (made.afterCalls calls).Conserves ((made.afterCalls calls).serve r).1 r.fresh) ∧
    ∀ c, c ≠ .reset → ∀ t, ((made.afterCalls calls).level t).valid.length ≤
      (((made.afterCalls calls).call c).level t).valid.length := by
  have hs := sameShape_afterCalls made calls
  obtain ⟨hroomy, -, hdemotes⟩ := roomy_of_sizes hm
  have hr := hs.roomy hroomy
  have hd := hs.demotes.trans hdemotes
  exact ⟨fun _ => sameSlots_of_hit, fun _ => conserves_of_miss hr hd, fun _ => length_valid_call hr hd⟩

/-- Four lines fill the three levels, and their stamps do not ascend. The next line costs the one in the
third level, which is not the one with the least stamp. -/
theorem demotion_conserves_full :
    let made : Hierarchy := { l1 := .blank 1, l2 := .blank 2, l3 := .blank 1, demoteVictims := true }
    let writing (address cycle : Int) : Request := { address, cycle, purpose := .write 7 }
    let calls : List Call :=
      [.serve (writing 0 9), .serve (writing 1 2), .clearMarks, .serve (writing 2 5), .serve (writing 3 1)]
    ofSizes [1, 2, 1] true = .ok made ∧ ((made.afterCalls calls).serve (writing 4 0)).2.hit = false ∧
      (made.afterCalls calls).Conserves ((made.afterCalls calls).serve (writing 4 0)).1 (writing 4 0).fresh ∧
      (made.afterCalls calls).l3.lines.map (·.address) = [1] := by
  intro made writing calls
  have hm : ofSizes [1, 2, 1] true = .ok made := rfl
  exact ⟨hm, by decide, (demotion_conserves hm calls).2.1 (writing 4 0) (by decide), by decide⟩

end PhaseMachine.Cache.Hierarchy
