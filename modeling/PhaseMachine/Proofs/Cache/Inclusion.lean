/-
When demotion keeps all hits. The first level alone hits the addresses with fewer others requested since
than it has lines; a cache that demotes its victims hits all with fewer others since than its third level
has lines. So no hit is lost where the third level is at least as large as the first one. Where it is
smaller some hits are: fill all levels, request the addresses of the third level, which stay there, and
then another one. That costs one of the lines just hit.
-/
import PhaseMachine.Proofs.Cache.Retention

namespace PhaseMachine.Cache

variable {past : List Request} {a : Int}

/-! ## Requests in a row -/

/-- Requests for some addresses, the latest first, each one cycle after the one before. -/
def numbered : List Int → List Request
  | [] => []
  | a :: addresses => { address := a, cycle := addresses.length, purpose := .write 0 } :: numbered addresses

@[simp]
theorem addresses_numbered (addresses : List Int) : (numbered addresses).map (·.address) = addresses := by
  induction addresses with
  | nil => rfl
  | cons a addresses ih => rw [numbered, List.map_cons, ih]

theorem cycle_numbered {addresses : List Int} {q : Request} (hq : q ∈ numbered addresses) :
    q.cycle < addresses.length := by
  induction addresses with
  | nil => cases hq
  | cons a addresses ih =>
    rw [List.length_cons]
    rcases List.mem_cons.1 hq with rfl | hq
    · simp
    · have := ih hq; push_cast; omega

theorem ascending_numbered (addresses : List Int) : Ascending (numbered addresses) := by
  induction addresses with
  | nil => exact .nil
  | cons a addresses ih => exact List.pairwise_cons.2 ⟨fun q hq => cycle_numbered hq, ih⟩

/-- Fewer others were requested since an address than there are requests up to it. -/
theorem card_between_lt {front back : List Int} (hpast : past.map (·.address) = front ++ back) (ha : a ∈ front) :
    (between a past).card < front.length := by
  induction past generalizing front with
  | nil =>
    cases front with
    | nil => cases ha
    | cons b front => cases hpast
  | cons r past ih =>
    cases front with
    | nil => cases ha
    | cons b front =>
      rw [List.map_cons, List.cons_append, List.cons.injEq] at hpast
      obtain ⟨rfl, hpast⟩ := hpast
      by_cases hra : r.address = a
      · simp [between, hra]
      · have := ih hpast ((List.mem_cons.1 ha).resolve_left (Ne.symm hra))
        have := Finset.card_insert_le r.address (between a past)
        rw [between_cons_of_ne hra, List.length_cons]
        omega

namespace Hierarchy

variable {h : Hierarchy}

/-! ## Full levels -/

def capacity (h : Hierarchy) : Nat :=
  h.l1.size + h.l2.size + h.l3.size

theorem capacity_ran (h : Hierarchy) (past : List Request) : (h.ran past).capacity = h.capacity := by
  have hs := (sameShape_ran h past).size
  have h1 : (h.ran past).l1.size = h.l1.size := hs .l1
  have h2 : (h.ran past).l2.size = h.l2.size := hs .l2
  have h3 : (h.ran past).l3.size = h.l3.size := hs .l3
  unfold capacity
  rw [h1, h2, h3]

theorem full_iff : (∀ t, (h.level t).Full) ↔ h.valid.length = h.capacity := by
  have hlevel : ∀ l : Level, l.valid.length ≤ l.size ∧ (l.Full ↔ l.valid.length = l.size) := fun l =>
    ⟨List.length_filter_le .., List.length_filter_eq_length_iff.symm⟩
  obtain ⟨h1, e1⟩ := hlevel h.l1
  obtain ⟨h2, e2⟩ := hlevel h.l2
  obtain ⟨h3, e3⟩ := hlevel h.l3
  have hlength : h.valid.length = h.l1.valid.length + (h.l2.valid.length + h.l3.valid.length) := by
    simp [Hierarchy.valid]
  unfold capacity
  constructor
  · intro hf
    have := e1.1 (hf .l1)
    have := e2.1 (hf .l2)
    have := e3.1 (hf .l3)
    omega
  · intro hsum t
    cases t with
    | l1 => exact e1.2 (by omega)
    | l2 => exact e2.2 (by omega)
    | l3 => exact e3.2 (by omega)

/-- Levels for the same addresses have as many valid lines. -/
theorem length_valid_eq {k : Hierarchy}
    (hkeep : ∀ t, ((h.level t).valid.map (·.address)).Perm ((k.level t).valid.map (·.address))) :
    h.valid.length = k.valid.length := by
  have h1 := (hkeep .l1).length_eq
  have h2 := (hkeep .l2).length_eq
  have h3 := (hkeep .l3).length_eq
  simp only [List.length_map, level] at h1 h2 h3
  unfold Hierarchy.valid
  simp only [List.length_append, h1, h2, h3]

/-- The addresses in each level stay while those of the third level are requested. -/
theorem addresses_ran (h : Hierarchy) (front back : List Int)
    (hfront : ∀ a ∈ front, a ∈ (h.ran (numbered back)).l3.valid.map (·.address)) (t : Tier) :
    (((h.ran (numbered (front ++ back))).level t).valid.map (·.address)).Perm
      (((h.ran (numbered back)).level t).valid.map (·.address)) := by
  induction front generalizing t with
  | nil => exact .refl _
  | cons a front ih =>
    have ih := ih fun b hb => hfront b (List.mem_cons_of_mem _ hb)
    have ha := (ih .l3).mem_iff.2 (hfront a (List.mem_cons_self ..))
    obtain ⟨line, hline, ha⟩ := List.mem_map.1 ha
    refine (addresses_of_hit (hit_iff.2 ⟨line, mem_valid.2 ⟨.l3, hline⟩, ha⟩) t).trans (ih t)

namespace Empty

/-- An address that was not requested has no line, and a request for it brings one in. -/
theorem miss (he : h.Empty) (hp : Ascending past) {r : Request} (hr : r.address ∉ past.map (·.address)) :
    (∀ line ∈ (h.ran past).valid, line.address ≠ r.address) ∧
      (h.ran past).Conserves ((h.ran past).serve r).1 r.fresh := by
  have hno : ∀ line ∈ (h.ran past).valid, line.address ≠ r.address := by
    intro line hline ha
    obtain ⟨q, hq, -⟩ := (he.retains_ran hp).stamped line hline
    exact hr (ha ▸ mem_of_latest? hq)
  rcases serve_cases (he.roomy_ran past) (he.demotes_ran past) r with ⟨old, new, rest, hold, -, h1, -⟩ | hmiss
  · exact absurd hold (hno old (h1.mem_iff.2 (List.mem_cons_self ..)))
  · exact hmiss

/-- No line is lost before all levels are full. -/
theorem length_valid_ran (he : h.Empty) {addresses : List Int} (hn : addresses.Nodup)
    (hle : addresses.length ≤ h.capacity) : (h.ran (numbered addresses)).valid.length = addresses.length := by
  induction addresses with
  | nil => exact congrArg List.length he.valid
  | cons a addresses ih =>
    obtain ⟨ha, hn⟩ := List.nodup_cons.1 hn
    rw [List.length_cons] at hle ⊢
    have ih := ih hn (by omega)
    obtain ⟨-, hc⟩ := he.miss (ascending_numbered addresses)
      (r := { address := a, cycle := addresses.length, purpose := .write 0 }) (by simpa using ha)
    obtain ⟨lost, hperm, hfull, -⟩ := hc.lines
    have hroom : ¬ ∀ t, ((h.ran (numbered addresses)).level t).Full := by
      rw [full_iff, capacity_ran]
      omega
    have hlost : lost = none := by simpa using mt hfull.1 hroom
    subst hlost
    have hlength := hperm.length_eq
    rw [List.length_cons, ih] at hlength
    exact hlength

/-- In full levels a request for a new address costs a line of the third one, and no line is for its address
any more. -/
theorem exists_lost_of_full (he : h.Empty) (hp : Ascending past) (hfull : ∀ t, ((h.ran past).level t).Full)
    {r : Request} (hr : r.address ∉ past.map (·.address)) :
    ∃ a ∈ (h.ran past).l3.valid.map (·.address), ∀ line ∈ (h.ran (r :: past)).valid, line.address ≠ a := by
  obtain ⟨hno, hc⟩ := he.miss hp hr
  obtain ⟨lost, hperm, hiff, holdest⟩ := hc.lines
  obtain ⟨line, hline⟩ := Option.isSome_iff_exists.1 (hiff.2 hfull)
  obtain ⟨i, ⟨hi, -⟩, hat⟩ := holdest line hline
  refine ⟨line.address, ?_, ?_⟩
  · rw [← hat]
    exact List.mem_map_of_mem (Level.mem_valid.2 ⟨Level.line_mem hi, hfull .l3 _ (Level.line_mem hi)⟩)
  · -- the lost line and those that stay are for different addresses
    have hdistinct := (hperm.map (·.address)).nodup_iff.2 (distinct_fresh (he.retains_ran hp).distinct hno)
    rw [hline, Option.toList_some, List.singleton_append, List.map_cons, List.nodup_cons] at hdistinct
    intro other hother ha
    exact hdistinct.1 (ha ▸ List.mem_map_of_mem hother)

/-- From full levels, requests for the addresses of the third one and then for a new one lose one of them. -/
theorem exists_lost (he : h.Empty) {back : List Int} (hn : back.Nodup) (hback : back.length = h.capacity)
    {b : Int} (hb : b ∉ back) :
    ∃ front : List Int, front.length = h.l3.size ∧
      ∃ a ∈ front, ∀ line ∈ (h.ran (numbered (b :: (front ++ back)))).valid, line.address ≠ a := by
  have hlength := he.length_valid_ran hn hback.le
  have hfull := full_iff.2 (hlength.trans (hback.trans (capacity_ran h _).symm))
  set front := (h.ran (numbered back)).l3.valid.map (·.address) with hfront
  have hkeep := h.addresses_ran front back fun a ha => ha
  have hnew : b ∉ front ++ back := by
    simp only [List.mem_append, hfront, List.mem_map]
    rintro (⟨line, hline, rfl⟩ | hmem)
    · obtain ⟨q, hq, -⟩ := (he.retains_ran (ascending_numbered back)).stamped line (mem_valid.2 ⟨.l3, hline⟩)
      exact hb (by simpa using mem_of_latest? hq)
    · exact hb hmem
  have hstill : ∀ t, ((h.ran (numbered (front ++ back))).level t).Full := by
    rw [full_iff, capacity_ran, length_valid_eq hkeep, hlength, hback]
  obtain ⟨a, ha, hlost⟩ := he.exists_lost_of_full (ascending_numbered (front ++ back)) hstill
    (r := { address := b, cycle := (front ++ back).length, purpose := .write 0 }) (by simpa using hnew)
  refine ⟨front, ?_, a, (hkeep .l3).mem_iff.1 ha, hlost⟩
  rw [hfront, List.length_map]
  exact (List.length_filter_eq_length_iff.2 (hfull .l3)).trans ((sameShape_ran h _).size .l3)

end Empty

/-! ## Both caches -/

theorem empty_of_isClear {k m n : Nat} (hc : IsClear [(k : Int), (m : Int), (n : Int)] true h) :
    h.Empty ∧ h.capacity = k + m + n ∧ h.l3.size = n := by
  have hm := isClear_iff.1 hc
  obtain ⟨hroomy, hvalid, hdemotes⟩ := roomy_of_sizes hm
  obtain ⟨a, b, c, hsizes, -, -, -, rfl⟩ := ofSizes_ok hm
  simp only [List.cons.injEq, Nat.cast_inj, and_true] at hsizes
  obtain ⟨rfl, rfl, rfl⟩ := hsizes
  exact ⟨⟨hroomy, hdemotes, hvalid⟩, by simp [capacity], by simp⟩

/-- A cache that overwrites its victims hits the addresses with fewer others since than the first level has
lines. -/
theorem overwriting_hit_iff {k m n : Nat} (hc : IsClear [(k : Int), (m : Int), (n : Int)] false h)
    (hp : Ascending past) (r : Request) : ((h.ran past).serve r).2.hit = true ↔
      r.address ∈ past.map (·.address) ∧ (between r.address past).card < k := by
  obtain ⟨hk, hh, -⟩ := holds_of_isClear hc
  rw [← mem_take_recent]
  exact ((hh.ran hk hp).serve hk hp r).2.1

/-- A cache that demotes its victims hits all with fewer others since than the third level has lines. -/
theorem demoting_hit {k m n : Nat} (hc : IsClear [(k : Int), (m : Int), (n : Int)] true h) (hp : Ascending past)
    {r : Request} (hr : r.address ∈ past.map (·.address)) (hcard : (between r.address past).card < n) :
    ((h.ran past).serve r).2.hit = true := by
  obtain ⟨he, -, hsize⟩ := empty_of_isClear hc
  apply hit_iff.2
  apply (he.retains_ran hp).held r.address hr
  rwa [show (h.ran past).l3.size = h.l3.size from (sameShape_ran h past).size .l3, hsize]

/-- With a third level smaller than the first one, some hit is lost. -/
theorem exists_hit_lost {k m n : Nat} {plain demoting : Hierarchy}
    (hplain : IsClear [(k : Int), (m : Int), (n : Int)] false plain)
    (hdemoting : IsClear [(k : Int), (m : Int), (n : Int)] true demoting) (hlt : n < k) :
    ∃ past r, Ascending (r :: past) ∧ ((plain.ran past).serve r).2.hit = true ∧
      ((demoting.ran past).serve r).2.hit = false := by
  obtain ⟨he, hcapacity, hsize⟩ := empty_of_isClear hdemoting
  let back := (List.range (k + m + n)).map Int.ofNat
  have hn : back.Nodup := List.nodup_range.map Int.ofNat_injective
  have hback : back.length = demoting.capacity := by simp [back, hcapacity]
  obtain ⟨front, hfront, a, ha, hlost⟩ := he.exists_lost hn hback (b := -1) (by simp [back])
  have hp : Ascending (numbered (a :: -1 :: (front ++ back))) := ascending_numbered _
  refine ⟨numbered (-1 :: (front ++ back)), _, hp, ?_, ?_⟩
  · apply (overwriting_hit_iff hplain (List.pairwise_cons.1 hp).2 _).2
    rw [addresses_numbered]
    refine ⟨by simp [ha], ?_⟩
    -- up to the request for the lost address there is one for each in the third level, and the new one
    have hcard := card_between_lt (addresses_numbered (-1 :: front ++ back)) (List.mem_cons_of_mem _ ha)
    rw [List.length_cons, hfront, hsize] at hcard
    exact lt_of_lt_of_le hcard hlt
  · rw [Bool.eq_false_iff, ne_eq, hit_iff]
    rintro ⟨line, hline, hla⟩
    exact hlost line hline hla

/-- Requests in ascending cycles are served by two caches of the same sizes, one of which demotes its
victims. What hits without demotion also hits with it if fewer other addresses were requested since than
the third level has lines. So demotion never turns a hit into a miss exactly if the third level is at least
as large as the first one. -/
theorem demotion_keeps_hits {k m n : Nat} {plain demoting : Hierarchy}
    (hplain : IsClear [(k : Int), (m : Int), (n : Int)] false plain)
    (hdemoting : IsClear [(k : Int), (m : Int), (n : Int)] true demoting) :
    (∀ past r, Ascending (r :: past) → ((plain.ran past).serve r).2.hit = true →
      (between r.address past).card < n → ((demoting.ran past).serve r).2.hit = true) ∧
    ((∀ past r, Ascending (r :: past) → ((plain.ran past).serve r).2.hit = true →
      ((demoting.ran past).serve r).2.hit = true) ↔ k ≤ n) := by
  have hkeep : ∀ past r, Ascending (r :: past) → ((plain.ran past).serve r).2.hit = true →
      (between r.address past).card < n → ((demoting.ran past).serve r).2.hit = true := by
    intro past r hp hhit hcard
    have hp := (List.pairwise_cons.1 hp).2
    exact demoting_hit hdemoting hp ((overwriting_hit_iff hplain hp r).1 hhit).1 hcard
  refine ⟨hkeep, ?_, ?_⟩
  · intro hall
    by_contra hlt
    obtain ⟨past, r, hp, hhit, hmiss⟩ := exists_hit_lost hplain hdemoting (not_le.1 hlt)
    rw [hall past r hp hhit] at hmiss
    cases hmiss
  · intro hle past r hp hhit
    have hcard := ((overwriting_hit_iff hplain (List.pairwise_cons.1 hp).2 r).1 hhit).2
    exact hkeep past r hp hhit (lt_of_lt_of_le hcard hle)

/-- The row of requests that costs the line hit last where the third level has a single line. -/
def rehit : List Request :=
  numbered [4, 0, 3, 2, 1, 0]

/-- With two lines in the third level the line stays. -/
theorem demotion_keeps_hits_two :
    let plain : Hierarchy := { l1 := .blank 2, l2 := .blank 1, l3 := .blank 2 }
    let demoting : Hierarchy := { plain with demoteVictims := true }
    let again : Request := { address := 0, cycle := 6, purpose := .write 0 }
    IsClear [2, 1, 2] false plain ∧ IsClear [2, 1, 2] true demoting ∧ Ascending (again :: rehit) ∧
      ((plain.ran rehit).serve again).2.hit = true ∧ (between again.address rehit).card < 2 ∧
      ((demoting.ran rehit).serve again).2.hit = true := by
  intro plain demoting again
  have hplain : IsClear [((2 : Nat) : Int), ((1 : Nat) : Int), ((2 : Nat) : Int)] false plain := isClear_iff.2 rfl
  have hdemoting : IsClear [((2 : Nat) : Int), ((1 : Nat) : Int), ((2 : Nat) : Int)] true demoting :=
    isClear_iff.2 rfl
  have hp : Ascending (again :: rehit) := ascending_numbered [0, 4, 0, 3, 2, 1, 0]
  have hhit : ((plain.ran rehit).serve again).2.hit = true := by decide
  have hcard : (between again.address rehit).card < 2 := by decide
  exact ⟨hplain, hdemoting, hp, hhit, hcard, (demotion_keeps_hits hplain hdemoting).1 rehit again hp hhit hcard⟩

/-- With a single line it is lost, though the first level alone would have hit. -/
theorem demotion_loses_hit :
    let plain : Hierarchy := { l1 := .blank 2, l2 := .blank 1, l3 := .blank 1 }
    let demoting : Hierarchy := { plain with demoteVictims := true }
    let again : Request := { address := 0, cycle := 6, purpose := .write 0 }
    IsClear [2, 1, 1] false plain ∧ IsClear [2, 1, 1] true demoting ∧ Ascending (again :: rehit) ∧
      ((plain.ran rehit).serve again).2.hit = true ∧ ((demoting.ran rehit).serve again).2.hit = false :=
  ⟨isClear_iff.2 rfl, isClear_iff.2 rfl, ascending_numbered [0, 4, 0, 3, 2, 1, 0], by decide, by decide⟩

end Hierarchy

end PhaseMachine.Cache
