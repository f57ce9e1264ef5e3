/-
What a cache that demotes its victims still holds of the addresses requested most recently. A line is lost
only from the third level, for the least stamp there, so all other lines of that level are for addresses
requested since, and so is the fresh line. Hence an address is held as long as fewer others were requested
since than the third level has lines. More is not promised: a hit below the first level moves no line up,
so with a third level smaller than the first one the lines hit last can be the next to go, which the first
level alone would have kept.
-/
import PhaseMachine.Proofs.Cache.Demotion
import PhaseMachine.Proofs.Cache.Stack

namespace PhaseMachine.Cache

variable {past : List Request} {r : Request} {a b : Int}

/-! ## Latest requests -/

theorem latest?_cons (a : Int) (r : Request) (past : List Request) :
    latest? a (r :: past) = if r.address = a then some r else latest? a past := by
  unfold latest?
  by_cases hr : r.address = a <;> simp [hr]

theorem mem_of_latest? {q : Request} (h : latest? a past = some q) : a ∈ past.map (·.address) := by
  have ha : q.address = a := by simpa using List.find?_some h
  exact ha ▸ List.mem_map_of_mem (List.mem_of_find?_eq_some h)

theorem between_cons_of_ne (hr : r.address ≠ a) : between a (r :: past) = insert r.address (between a past) := by
  unfold between
  rw [List.takeWhile_cons_of_pos (by simpa using hr), List.map_cons, List.toFinset_cons]

/-- An address whose latest request came after that for another was requested since. -/
theorem mem_between_of_latest {p q : Request} (hp : Ascending past) (ha : latest? a past = some p)
    (hb : latest? b past = some q) (hne : b ≠ a) (hle : p.cycle ≤ q.cycle) : b ∈ between a past := by
  induction past with
  | nil => cases ha
  | cons r past ih =>
    obtain ⟨hr, hp⟩ := List.pairwise_cons.1 hp
    rw [latest?_cons] at ha hb
    by_cases hra : r.address = a
    · -- the latest request is for `a`, so the one for `b` is earlier
      rw [if_pos hra] at ha
      rw [if_neg (by omega)] at hb
      cases ha
      have := hr q (List.mem_of_find?_eq_some hb)
      omega
    · rw [if_neg hra] at ha
      rw [between_cons_of_ne hra, Finset.mem_insert]
      by_cases hrb : r.address = b
      · exact .inl hrb.symm
      · rw [if_neg hrb] at hb
        exact .inr (ih hp ha hb)

namespace Hierarchy

variable {h : Hierarchy}

/-! ## One request -/

theorem hit_iff : (h.serve r).2.hit = true ↔ ∃ line ∈ h.valid, line.address = r.address := by
  cases hl : h.locate? r.address with
  | none =>
    rw [(serve_of_none hl).1]
    constructor
    · intro hf; cases hf
    · rintro ⟨line, hline, ha⟩; exact absurd ha (locate?_eq_none.1 hl line hline)
  | some place =>
    obtain ⟨t, i⟩ := place
    obtain ⟨hi, hv, ha⟩ := locate?_some hl
    constructor
    · intro _; exact ⟨_, mem_valid.2 ⟨t, Level.mem_valid.2 ⟨Level.line_mem hi, hv⟩⟩, ha⟩
    · intro _; exact (serve_of_some hl).1

theorem visited_serve (h : Hierarchy) (r : Request) : h.Visited (h.serve r).1 r.address r.cycle := by
  refine ⟨r.touched, r.fresh, by rw [serve_eq], r.valid_fresh, fun line => ?_, r.address_fresh,
    r.lastAccessed_fresh⟩
  exact ⟨r.valid_touched line, r.address_touched line⟩

/-- A cache that demotes its victims exchanges the line for the address for another, or takes the fresh line
in. -/
theorem serve_cases (hr : h.Roomy) (hd : h.demoteVictims = true) (r : Request) :
    (∃ old new rest, old.address = r.address ∧ new.address = r.address ∧ h.valid.Perm (old :: rest) ∧
      (h.serve r).1.valid.Perm (new :: rest)) ∨
    (∀ line ∈ h.valid, line.address ≠ r.address) ∧ h.Conserves (h.serve r).1 r.fresh := by
  cases hl : h.locate? r.address with
  | none => exact .inr ⟨locate?_eq_none.1 hl, conserves_of_miss hr hd (serve_of_none hl).1⟩
  | some place =>
    rw [serve_eq]
    rcases access_cases hr r.touched r.fresh r.valid_fresh r.valid_touched with
      ⟨old, rest, -, ha, h1, h2⟩ | ⟨lost, -, hno, -⟩
    · rw [r.address_fresh] at ha
      refine .inl ⟨old, { r.touched old with lastAccessed := r.fresh.lastAccessed }, rest, ha, ?_, h1, h2⟩
      exact (r.address_touched old).trans ha
    · rw [r.address_fresh] at hno
      rw [locate?_eq_none.2 hno] at hl
      cases hl

/-- A fresh line for an address without a line leaves the addresses different. -/
theorem distinct_fresh (hn : (h.valid.map (·.address)).Nodup)
    (hno : ∀ line ∈ h.valid, line.address ≠ r.address) : ((r.fresh :: h.valid).map (·.address)).Nodup := by
  rw [List.map_cons, List.nodup_cons, List.mem_map, r.address_fresh]
  refine ⟨?_, hn⟩
  rintro ⟨line, hline, ha⟩
  exact hno line hline ha

/-- The addresses in each level stay while requests hit. -/
theorem addresses_of_hit (hhit : (h.serve r).2.hit = true) (t : Tier) :
    (((h.serve r).1.level t).valid.map (·.address)).Perm ((h.level t).valid.map (·.address)) := by
  cases hl : h.locate? r.address with
  | none =>
    rw [(serve_of_none hl).1] at hhit
    cases hhit
  | some place =>
    obtain ⟨u, i⟩ := place
    obtain ⟨⟨rest, h1, h2⟩, hother⟩ := valid_of_some hl
    by_cases ht : t = u
    · subst ht
      refine (h2.map _).trans (.trans ?_ (h1.map _).symm)
      rw [List.map_cons, List.map_cons, r.address_touched]
    · rw [hother t ht]

/-! ## What is held -/

/-- The valid lines are for different addresses, each stamped by the latest request for its address, and an
address is held while fewer others were requested since than the third level has lines. -/
structure Retains (h : Hierarchy) (past : List Request) : Prop where
  distinct : (h.valid.map (·.address)).Nodup
  stamped : ∀ line ∈ h.valid, ∃ q, latest? line.address past = some q ∧ line.lastAccessed = q.cycle
  held : ∀ a ∈ past.map (·.address), (between a past).card < h.l3.size → ∃ line ∈ h.valid, line.address = a

namespace Retains

theorem of_valid_eq_nil (hv : h.valid = []) : h.Retains [] := by
  constructor
  · rw [hv]; exact .nil
  · rw [hv]; intro line hline; cases hline
  · intro a ha; cases ha

/-- The line that a full third level gives up to a fresh one is for an address since whose latest request
as many others were requested as the level has lines. -/
theorem size_le_between (hh : h.Retains past) (hp : Ascending past) (hfull : h.l3.Full) {i : Nat}
    (hi : h.l3.IsOldest i) (hno : ∀ line ∈ h.valid, line.address ≠ r.address) :
    h.l3.size ≤ (between (h.l3.line i).address (r :: past)).card := by
  obtain ⟨hlt, hleast, -⟩ := hi
  set lost := h.l3.line i with hlost
  have hvalid : h.l3.valid = h.l3.lines := List.filter_eq_self.2 hfull
  have hsub : ∀ line ∈ h.l3.lines, line ∈ h.valid := fun line hline =>
    mem_valid.2 ⟨.l3, Level.mem_valid.2 ⟨hline, hfull line hline⟩⟩
  have hmem : lost ∈ h.l3.lines := Level.line_mem hlt
  -- the addresses of the level, with that of the fresh line in place of the lost one
  have hn : (h.l3.lines.map (·.address)).Nodup := by
    have hn := hh.distinct
    unfold Hierarchy.valid at hn
    rw [hvalid, List.map_append, List.map_append] at hn
    exact hn.of_append_right.of_append_right
  have hcard :
      (insert r.address ((h.l3.lines.map (·.address)).toFinset.erase lost.address)).card = h.l3.size := by
    rw [Finset.card_insert_of_notMem, Finset.card_erase_of_mem, List.toFinset_card_of_nodup hn, List.length_map]
    · exact Nat.sub_add_cancel (Nat.one_le_of_lt hlt)
    · simpa using ⟨lost, hmem, rfl⟩
    · simp only [Finset.mem_erase, List.mem_toFinset, List.mem_map, not_and]
      rintro - ⟨line, hline, ha⟩
      exact hno line (hsub line hline) ha
  rw [← hcard]
  apply Finset.card_le_card
  rw [between_cons_of_ne (Ne.symm (hno lost (hsub lost hmem)))]
  apply Finset.insert_subset_insert
  intro b hb
  simp only [Finset.mem_erase, List.mem_toFinset, List.mem_map] at hb
  obtain ⟨hne, line, hline, rfl⟩ := hb
  obtain ⟨p, hpa, hps⟩ := hh.stamped lost (hsub lost hmem)
  obtain ⟨q, hqb, hqs⟩ := hh.stamped line (hsub line hline)
  have hle := hleast line hline
  exact mem_between_of_latest hp hpa hqb hne (by omega)

/-- A request keeps all but the line it touches and the one it may cost, and that one need not be held any
more. -/
theorem serve (hh : h.Retains past) (hr : h.Roomy) (hd : h.demoteVictims = true) (hp : Ascending past)
    (r : Request) : (h.serve r).1.Retains (r :: past) := by
  refine ⟨?_, ?_, ?_⟩
  · rcases serve_cases hr hd r with ⟨old, new, rest, hold, hnew, h1, h2⟩ | ⟨hno, hc⟩
    · have hn := (h1.map (·.address)).nodup_iff.1 hh.distinct
      rw [(h2.map _).nodup_iff, List.map_cons, hnew, ← hold]
      exact hn
    · obtain ⟨lost, hperm, -⟩ := hc.lines
      have hn := (hperm.map (·.address)).nodup_iff.2 (distinct_fresh hh.distinct hno)
      rw [List.map_append] at hn
      exact hn.of_append_right
  · intro line hline
    rw [latest?_cons]
    rcases (visited_serve h r).valid_line hr hh.distinct hline with ⟨ha, hs⟩ | ⟨hold, ha⟩
    · exact ⟨r, if_pos ha.symm, hs⟩
    · rw [if_neg (Ne.symm ha)]
      exact hh.stamped line hold
  · intro a ha hcard
    rw [show (h.serve r).1.l3.size = h.l3.size from (sameShape_serve h r).size .l3] at hcard
    by_cases hra : r.address = a
    · subst hra
      rcases serve_cases hr hd r with ⟨old, new, rest, -, hnew, -, h2⟩ | ⟨-, hc⟩
      · exact ⟨new, h2.mem_iff.2 (List.mem_cons_self ..), hnew⟩
      · exact ⟨r.fresh, mem_valid.2 ⟨.l1, hc.first⟩, r.address_fresh⟩
    · have hbefore : (between a past).card < h.l3.size := by
        refine lt_of_le_of_lt (Finset.card_le_card ?_) hcard
        rw [between_cons_of_ne hra]
        exact Finset.subset_insert ..
      obtain ⟨line, hline, rfl⟩ := hh.held a (by simpa [Ne.symm hra] using ha) hbefore
      rcases serve_cases hr hd r with ⟨old, new, rest, hold, -, h1, h2⟩ | ⟨hno, hc⟩
      · rcases List.mem_cons.1 (h1.mem_iff.1 hline) with rfl | hline
        · exact absurd hold.symm hra
        · exact ⟨line, h2.mem_iff.2 (List.mem_cons_of_mem _ hline), rfl⟩
      · obtain ⟨lost, hperm, hfull, holdest⟩ := hc.lines
        rcases List.mem_append.1 (hperm.mem_iff.2 (List.mem_cons_of_mem _ hline)) with hlost | hline
        · -- too many others were requested since for the line that is lost
          have hlost := Option.mem_toList.1 hlost
          obtain ⟨i, hi, rfl⟩ := holdest line hlost
          have hfull := hfull.1 (Option.isSome_of_mem hlost)
          exact absurd hcard (not_lt.2 (hh.size_le_between hp (hfull .l3) hi hno))
        · exact ⟨line, hline, rfl⟩

end Retains

/-! ## A row of requests -/

theorem sameShape_ran (h : Hierarchy) (past : List Request) : h.SameShape (h.ran past) := by
  induction past with
  | nil => exact .refl h
  | cons r past ih => exact ih.trans (sameShape_serve (h.ran past) r)

/-- An empty cache that demotes its victims. -/
structure Empty (h : Hierarchy) : Prop where
  roomy : h.Roomy
  demotes : h.demoteVictims = true
  valid : h.valid = []

namespace Empty

theorem roomy_ran (he : h.Empty) (past : List Request) : (h.ran past).Roomy :=
  (sameShape_ran h past).roomy he.roomy

theorem demotes_ran (he : h.Empty) (past : List Request) : (h.ran past).demoteVictims = true :=
  (sameShape_ran h past).demotes.trans he.demotes

theorem retains_ran (he : h.Empty) (hp : Ascending past) : (h.ran past).Retains past := by
  induction past with
  | nil => exact .of_valid_eq_nil he.valid
  | cons r past ih =>
    have hp := (List.pairwise_cons.1 hp).2
    exact (ih hp).serve (he.roomy_ran past) (he.demotes_ran past) hp r

end Empty

end Hierarchy

end PhaseMachine.Cache
