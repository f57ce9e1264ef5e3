/-
The first level of a cache that overwrites its victims, as a stack of lines with the one accessed latest
on top. A request for an address on the stack takes its line to the top. Any other puts a fresh line
there, and of more lines than the level has the one at the bottom goes. While cycles ascend, the level
holds the stack, and the stack is for the addresses requested most recently.
-/
import PhaseMachine.Proofs.Cache.Calls

namespace PhaseMachine.Cache

/-! ## Requests, the latest first -/

def Ascending (past : List Request) : Prop :=
  past.Pairwise fun later earlier => earlier.cycle < later.cycle

/-- The addresses requested, each once, the one requested most recently first. -/
def recent : List Request → List Int
  | [] => []
  | r :: past => r.address :: (recent past).filter (· != r.address)

/-- The addresses requested since the latest request for an address. -/
def between (address : Int) (past : List Request) : Finset Int :=
  ((past.takeWhile (·.address != address)).map (·.address)).toFinset

def latest? (address : Int) (past : List Request) : Option Request :=
  past.find? (·.address == address)

variable {past : List Request} {r : Request} {a : Int} {k : Nat}

@[simp]
theorem mem_recent : a ∈ recent past ↔ a ∈ past.map (·.address) := by
  induction past with
  | nil => exact Iff.rfl
  | cons r past ih =>
    rw [recent, List.mem_cons, List.mem_filter, ih, List.map_cons, List.mem_cons, bne_iff_ne]
    tauto

theorem nodup_recent : ∀ past, (recent past).Nodup
  | [] => .nil
  | r :: past => by
    rw [recent, List.nodup_cons]
    exact ⟨fun hm => by simpa using List.of_mem_filter hm, (nodup_recent past).filter _⟩

/-- The addresses before one that was requested are those requested since. -/
theorem mem_takeWhile_recent {x : Int} :
    x ∈ (recent past).takeWhile (· != a) ↔ x ∈ (past.takeWhile (·.address != a)).map (·.address) := by
  induction past with
  | nil => exact Iff.rfl
  | cons r past ih =>
    by_cases hr : r.address = a
    · simp [recent, hr]
    · -- an address apart from `a` may be left out before or after
      have hcongr : (fun y => !(y != r.address) || y != a) = fun y => y != a := by
        funext y
        by_cases hy : y = r.address
        · simp [hy, hr]
        · simp [hy]
      rw [recent, List.takeWhile_cons_of_pos (by simpa using hr), List.takeWhile_cons_of_pos (by simpa using hr),
        List.takeWhile_filter, hcongr, List.mem_cons, List.mem_filter, ih, List.map_cons, List.mem_cons, bne_iff_ne]
      tauto

theorem card_between : (between a past).card = ((recent past).takeWhile (· != a)).length := by
  have hn : ((recent past).takeWhile (· != a)).Nodup := (nodup_recent past).sublist (List.takeWhile_sublist _)
  rw [← List.toFinset_card_of_nodup hn, between]
  congr 1
  ext x
  rw [List.mem_toFinset, List.mem_toFinset, mem_takeWhile_recent]

/-- What is among the first of a list has few entries before it. -/
theorem mem_take_iff {l : List Int} : a ∈ l.take k ↔ a ∈ l ∧ (l.takeWhile (· != a)).length < k := by
  induction l generalizing k with
  | nil => simp
  | cons b l ih =>
    cases k with
    | zero => simp
    | succ k =>
      by_cases hb : b = a
      · simp [hb]
      · have hb' : a ≠ b := Ne.symm hb
        rw [List.take_succ_cons, List.mem_cons, ih, List.mem_cons, List.takeWhile_cons_of_pos (by simpa using hb),
          List.length_cons]
        simp [hb']

theorem mem_take_recent :
    a ∈ (recent past).take k ↔ a ∈ past.map (·.address) ∧ (between a past).card < k := by
  rw [mem_take_iff, mem_recent, card_between]

/-- Taking an entry out of the first ones leaves the first without it. -/
theorem filter_take {l : List Int} (hn : l.Nodup) (ha : a ∈ l.take (k + 1)) :
    (l.take (k + 1)).filter (· != a) = (l.filter (· != a)).take k := by
  induction l generalizing k with
  | nil => cases ha
  | cons b l ih =>
    obtain ⟨hb, hn⟩ := List.nodup_cons.1 hn
    have hkeep : ∀ m : List Int, a ∉ m → m.filter (· != a) = m := fun m hm =>
      List.filter_eq_self.2 fun x hx => by simpa using fun he : x = a => hm (he ▸ hx)
    by_cases he : b = a
    · subst he
      rw [List.take_succ_cons, List.filter_cons_of_neg (by simp), List.filter_cons_of_neg (by simp), hkeep l hb,
        hkeep _ fun hm => hb (List.mem_of_mem_take hm)]
    · rw [List.take_succ_cons, List.mem_cons] at ha
      have ha := ha.resolve_left (Ne.symm he)
      cases k with
      | zero => cases ha
      | succ k =>
        rw [List.take_succ_cons, List.filter_cons_of_pos (by simpa using he), ih hn ha,
          List.filter_cons_of_pos (by simpa using he), List.take_succ_cons]

theorem take_filter {l : List Int} (ha : a ∉ l.take (k + 1)) : (l.filter (· != a)).take k = l.take k := by
  induction l generalizing k with
  | nil => rfl
  | cons b l ih =>
    rw [List.take_succ_cons, List.mem_cons, not_or] at ha
    rw [List.filter_cons_of_pos (by simpa using Ne.symm ha.1)]
    cases k with
    | zero => rfl
    | succ k => rw [List.take_succ_cons, List.take_succ_cons, ih ha.2]

/-! ## The stack -/

/-- The stack of at most `k` lines after a request. -/
def Request.stacked (r : Request) (k : Nat) (stack : List Line) : List Line :=
  match stack.find? (·.address == r.address) with
  | some line => r.touched line :: stack.filter (·.address != r.address)
  | none => (r.fresh :: stack).take k

def stack (k : Nat) : List Request → List Line
  | [] => []
  | r :: past => r.stacked k (stack k past)

variable {lines : List Line}

/-- A request moves a line up or puts one on top. -/
theorem Request.stacked_cases (r : Request) (k : Nat) (lines : List Line) :
    (∃ line ∈ lines, line.address = r.address ∧
      r.stacked k lines = r.touched line :: lines.filter (·.address != r.address)) ∨
    ((∀ line ∈ lines, line.address ≠ r.address) ∧ r.stacked k lines = (r.fresh :: lines).take k) := by
  unfold stacked
  cases hf : lines.find? (·.address == r.address) with
  | some line => exact .inl ⟨line, List.mem_of_find?_eq_some hf, by simpa using List.find?_some hf, rfl⟩
  | none => exact .inr ⟨fun line hline => by simpa using List.find?_eq_none.1 hf line hline, rfl⟩

/-- Either way the top is for its address and cycle, and what is below was there. -/
theorem Request.stacked_eq_cons (r : Request) (hk : 0 < k) (lines : List Line) :
    ∃ top rest, r.stacked k lines = top :: rest ∧ top.address = r.address ∧ top.lastAccessed = r.cycle ∧
      rest.Sublist lines ∧ ∀ line ∈ rest, line.address ≠ r.address := by
  obtain ⟨j, rfl⟩ := Nat.exists_eq_add_one_of_ne_zero hk.ne'
  rcases r.stacked_cases (j + 1) lines with ⟨line, hline, ha, he⟩ | ⟨hno, he⟩
  · exact ⟨_, _, he, (r.address_touched line).trans ha, r.lastAccessed_touched line, List.filter_sublist,
      fun x hx => by simpa using List.of_mem_filter hx⟩
  · rw [List.take_succ_cons] at he
    exact ⟨_, _, he, r.address_fresh, r.lastAccessed_fresh, List.take_sublist .., fun x hx =>
      hno x (List.mem_of_mem_take hx)⟩

/-- The stack is for the addresses requested most recently. -/
theorem addresses_stack (hk : 0 < k) (past : List Request) :
    (stack k past).map (·.address) = (recent past).take k := by
  obtain ⟨j, rfl⟩ := Nat.exists_eq_add_one_of_ne_zero hk.ne'
  induction past with
  | nil => rfl
  | cons r past ih =>
    rw [stack, recent, List.take_succ_cons]
    rcases r.stacked_cases (j + 1) (stack (j + 1) past) with ⟨line, hline, ha, he⟩ | ⟨hno, he⟩
    · have hmem : r.address ∈ (recent past).take (j + 1) := ih ▸ ha ▸ List.mem_map_of_mem hline
      rw [he, List.map_cons, r.address_touched, ha, ← filter_take (nodup_recent past) hmem, ← ih, List.filter_map]
      rfl
    · have hmem : r.address ∉ (recent past).take (j + 1) := by
        rw [← ih, List.mem_map]
        rintro ⟨line, hline, ha⟩
        exact hno line hline ha
      rw [he, List.take_succ_cons, List.map_cons, r.address_fresh, take_filter hmem, List.map_take, ih,
        List.take_take, Nat.min_eq_left (Nat.le_succ j)]

theorem nodup_stack (hk : 0 < k) (past : List Request) : ((stack k past).map (·.address)).Nodup := by
  rw [addresses_stack hk]
  exact (nodup_recent past).sublist (List.take_sublist ..)

/-- A line is stamped by the latest request for its address. -/
theorem stamp_of_mem_stack (hk : 0 < k) {line : Line} (hline : line ∈ stack k past) :
    (latest? line.address past).map (·.cycle) = some line.lastAccessed := by
  induction past with
  | nil => cases hline
  | cons r past ih =>
    obtain ⟨top, rest, he, ha, hs, hsub, hno⟩ := r.stacked_eq_cons hk (stack k past)
    rw [stack, he, List.mem_cons] at hline
    rcases hline with rfl | hline
    · simp [latest?, ha, hs]
    · have hne : r.address ≠ line.address := Ne.symm (hno line hline)
      rw [← ih (hsub.subset hline), latest?, List.find?_cons_of_neg (by simpa using hne)]
      rfl

theorem descending_stack (hk : 0 < k) (hp : Ascending past) :
    (stack k past).Pairwise fun upper lower => lower.lastAccessed < upper.lastAccessed := by
  induction past with
  | nil => exact .nil
  | cons r past ih =>
    obtain ⟨hr, hp⟩ := List.pairwise_cons.1 hp
    obtain ⟨top, rest, he, -, hs, hsub, -⟩ := r.stacked_eq_cons hk (stack k past)
    rw [stack, he, List.pairwise_cons]
    refine ⟨fun line hline => ?_, (ih hp).sublist hsub⟩
    obtain ⟨q, hq, hc⟩ := Option.map_eq_some_iff.1 (stamp_of_mem_stack hk (hsub.subset hline))
    rw [← hc, hs]
    exact hr q (List.mem_of_find?_eq_some hq)

/-! ## The level -/

/-- A row that takes a fresh line in for its victim holds the stack with that line on top. -/
theorem Level.valid_victim_replaced {l : Level} (hs : 0 < l.size) (hv : l.valid.Perm lines)
    (hd : lines.Pairwise fun upper lower => lower.lastAccessed < upper.lastAccessed) {fresh : Line}
    (hf : fresh.valid = true) : (l.setLine l.victim fresh).valid.Perm ((fresh :: lines).take l.size) := by
  have hset := valid_setLine (victim_lt hs) hf
  by_cases hfull : l.Full
  · have hlength : lines.length = l.size := by
      rw [← hv.length_eq]
      exact List.length_filter_eq_length_iff.2 hfull
    obtain rfl | ⟨upper, last, rfl⟩ := lines.eq_nil_or_concat'
    · rw [← hlength] at hs
      cases hs
    -- stamps descend strictly, so the line with the least one is the last
    obtain ⟨hi, hleast, -⟩ := victim_of_full hs hfull
    have hvictim : l.line l.victim = last := by
      have hmem := hv.mem_iff.1 (mem_valid.2 ⟨line_mem hi, hfull _ (line_mem hi)⟩)
      rcases List.mem_append.1 hmem with hmem | hmem
      · have hlast : last ∈ l.lines := (mem_valid.1 (hv.mem_iff.2 (by simp))).1
        have hlt := (List.pairwise_append.1 hd).2.2 _ hmem last (List.mem_singleton_self last)
        exact absurd (hleast last hlast) (not_le.2 hlt)
      · exact List.mem_singleton.1 hmem
    rw [List.filter_cons_of_pos (hfull _ (line_mem hi)), hvictim] at hset
    have hperm : (last :: (l.setLine l.victim fresh).valid).Perm (last :: fresh :: upper) :=
      hset.trans (((hv.trans List.perm_append_comm).cons fresh).trans (.swap ..))
    have htake : (fresh :: (upper ++ [last])).take l.size = fresh :: upper := by
      rw [← hlength, List.length_append, List.length_singleton, List.take_succ_cons, List.take_left]
    rw [htake]
    exact hperm.cons_inv
  · have hempty : (l.line l.victim).valid = false := Bool.eq_false_iff.2 fun h => hfull ((valid_victim_iff hs).1 h)
    have hlength : (fresh :: lines).length ≤ l.size := by
      obtain ⟨line, hline, he⟩ := not_forall₂.1 hfull
      rw [List.length_cons, ← hv.length_eq]
      exact List.length_filter_lt_length_iff_exists.2 ⟨line, hline, he⟩
    rw [List.filter_cons_of_neg (by simp [hempty])] at hset
    rw [List.take_of_length_le hlength]
    exact hset.trans (hv.cons fresh)

namespace Hierarchy

/-- The first level holds the lines in some order, and the others nothing. -/
structure Holds (h : Hierarchy) (k : Nat) (lines : List Line) : Prop where
  size : h.l1.size = k
  overwrites : h.demoteVictims = false
  first : h.l1.valid.Perm lines
  below : ∀ t, t ≠ .l1 → (h.level t).valid = [] ∧ (h.level t).hits = 0

variable {h : Hierarchy}

theorem Holds.valid (hh : h.Holds k lines) : h.valid.Perm lines := by
  unfold Hierarchy.valid
  rw [show h.l2.valid = [] from (hh.below .l2 nofun).1, show h.l3.valid = [] from (hh.below .l3 nofun).1,
    List.append_nil, List.append_nil]
  exact hh.first

/-- A request that finds its line takes it to the top. -/
theorem Holds.of_hit (hh : h.Holds k lines) (hn : (lines.map (·.address)).Nodup) {line : Line}
    (hline : line ∈ lines) (ha : line.address = r.address) :
    ((h.serve r).2.hit = true ∧ (h.serve r).1.l1.hits = h.l1.hits + 1 ∧ (h.serve r).1.l1.misses = h.l1.misses) ∧
      (h.serve r).1.Holds k (r.touched line :: lines.filter (·.address != r.address)) := by
  cases hl : h.locate? r.address with
  | none => exact absurd ha (locate?_eq_none.1 hl line (hh.valid.mem_iff.2 hline))
  | some place =>
    obtain ⟨t, i⟩ := place
    obtain ⟨hi, hv, hi'⟩ := locate?_some hl
    have hmem := Level.mem_valid.2 ⟨Level.line_mem hi, hv⟩
    obtain rfl : t = .l1 := by
      by_contra ht
      rw [(hh.below t ht).1] at hmem
      cases hmem
    have hfound : (h.level .l1).line i = line :=
      List.inj_on_of_nodup_map hn (hh.first.mem_iff.1 hmem) hline (hi'.trans ha.symm)
    obtain ⟨⟨rest, h1, h2⟩, hother⟩ := valid_of_some hl
    rw [hfound] at h1 h2
    -- no other line is for the address
    have hrest : rest.Perm (lines.filter (·.address != r.address)) := by
      have hn := ((h1.symm.trans hh.first).map (·.address)).nodup_iff.2 hn
      rw [List.map_cons, List.nodup_cons] at hn
      have hkeep : rest.filter (·.address != r.address) = rest := List.filter_eq_self.2 fun x hx => by
        simpa using fun he : x.address = r.address => hn.1 (ha.trans he.symm ▸ List.mem_map_of_mem hx)
      have hp := (h1.symm.trans hh.first).filter (·.address != r.address)
      rwa [List.filter_cons_of_neg (by simp [ha]), hkeep] at hp
    obtain ⟨hhit, hlevels⟩ := serve_of_some hl
    have hs := sameShape_serve h r
    refine ⟨⟨hhit, (hlevels .l1).2.1, (hlevels .l1).2.2⟩, (hs.size .l1).trans hh.size,
      hs.demotes.trans hh.overwrites, h2.trans (hrest.cons _), fun u hu => ?_⟩
    have hhits := (hlevels u).2.1
    rw [if_neg hu] at hhits
    exact ⟨(hother u hu).trans (hh.below u hu).1, hhits.trans (hh.below u hu).2⟩

/-- One that finds none puts the fresh line on top. -/
theorem Holds.of_miss (hh : h.Holds k lines) (hk : 0 < k)
    (hd : lines.Pairwise fun upper lower => lower.lastAccessed < upper.lastAccessed)
    (hno : ∀ line ∈ lines, line.address ≠ r.address) :
    ((h.serve r).2.hit = false ∧ (h.serve r).1.l1.hits = h.l1.hits ∧ (h.serve r).1.l1.misses = h.l1.misses + 1) ∧
      (h.serve r).1.Holds k ((r.fresh :: lines).take k) := by
  have hl : h.locate? r.address = none :=
    locate?_eq_none.2 fun line hline => hno line (hh.valid.mem_iff.1 hline)
  obtain ⟨hhit, he⟩ := serve_of_none hl
  rw [allocate_eq (h := h.missed r.fresh) hh.overwrites] at he
  have hs := sameShape_serve h r
  rw [he] at hs ⊢
  refine ⟨⟨hhit, rfl, rfl⟩, (hs.size .l1).trans hh.size, hh.overwrites, ?_, fun t ht => ?_⟩
  · rw [← hh.size]
    exact Level.valid_victim_replaced (hh.size.symm ▸ hk) hh.first hd r.valid_fresh
  · cases t with
    | l1 => exact absurd rfl ht
    | l2 => exact hh.below .l2 ht
    | l3 => exact hh.below .l3 ht

/-- A request does to the first level what it does to the stack, and finds the addresses on the stack. -/
theorem Holds.serve (hh : h.Holds k (stack k past)) (hk : 0 < k) (hp : Ascending past) (r : Request) :
    (h.serve r).1.Holds k (stack k (r :: past)) ∧
      ((h.serve r).2.hit = true ↔ r.address ∈ (recent past).take k) ∧
      (h.serve r).1.l1.hits = h.l1.hits + (if (h.serve r).2.hit then 1 else 0) ∧
      (h.serve r).1.l1.misses = h.l1.misses + (if !(h.serve r).2.hit then 1 else 0) := by
  rw [← addresses_stack hk, stack]
  rcases r.stacked_cases k (stack k past) with ⟨line, hline, ha, he⟩ | ⟨hno, he⟩
  · obtain ⟨⟨hhit, hhits, hmisses⟩, hnext⟩ := hh.of_hit (nodup_stack hk past) hline ha
    rw [he, hhit, hhits, hmisses]
    exact ⟨hnext, iff_of_true rfl (ha ▸ List.mem_map_of_mem hline), rfl, rfl⟩
  · obtain ⟨⟨hhit, hhits, hmisses⟩, hnext⟩ := hh.of_miss hk (descending_stack hk hp) hno
    rw [he, hhit, hhits, hmisses]
    refine ⟨hnext, iff_of_false Bool.false_ne_true fun hm => ?_, rfl, rfl⟩
    obtain ⟨line, hline, ha⟩ := List.mem_map.1 hm
    exact hno line hline ha

/-! ## A row of requests -/

/-- The cache after requests, the latest first. -/
def ran (h : Hierarchy) (past : List Request) : Hierarchy :=
  past.foldr (fun r h => (h.serve r).1) h

/-- What each of them found. -/
def log (h : Hierarchy) : List Request → List (Request × Access)
  | [] => []
  | r :: past => (r, ((h.ran past).serve r).2) :: h.log past

theorem Holds.ran (hh : h.Holds k []) (hk : 0 < k) (hp : Ascending past) :
    (h.ran past).Holds k (stack k past) := by
  induction past with
  | nil => exact hh
  | cons r past ih =>
    have hp := (List.pairwise_cons.1 hp).2
    exact ((ih hp).serve hk hp r).1

theorem counters_ran (hh : h.Holds k []) (hk : 0 < k) (hp : Ascending past) :
    (h.ran past).l1.hits = h.l1.hits + (h.log past).countP (·.2.hit) ∧
      (h.ran past).l1.misses = h.l1.misses + (h.log past).countP (!·.2.hit) := by
  induction past with
  | nil => exact ⟨rfl, rfl⟩
  | cons r past ih =>
    have hp := (List.pairwise_cons.1 hp).2
    obtain ⟨hhits, hmisses⟩ := ih hp
    obtain ⟨-, -, hhits', hmisses'⟩ := (hh.ran hk hp).serve hk hp r
    rw [log, List.countP_cons, List.countP_cons, ← add_assoc, ← add_assoc, ← hhits, ← hmisses]
    exact ⟨hhits', hmisses'⟩

end Hierarchy

/-- An address was written in a log, the latest request first, and the requests for it since were hits. So
it was written since its line came in. -/
def WrittenSince (address : Int) (log : List (Request × Access)) : Prop :=
  ∃ later e earlier, log = later ++ e :: earlier ∧ e.1.address = address ∧ e.1.writes = true ∧
    ∀ f ∈ later, f.1.address = address → f.2.hit = true

theorem writtenSince_cons {f : Request × Access} {log : List (Request × Access)} :
    WrittenSince a (f :: log) ↔
      f.1.address = a ∧ f.1.writes = true ∨ (f.1.address = a → f.2.hit = true) ∧ WrittenSince a log := by
  constructor
  · rintro ⟨later, e, earlier, he, ha, hw, hhits⟩
    cases later with
    | nil =>
      cases he
      exact .inl ⟨ha, hw⟩
    | cons g later =>
      cases he
      obtain ⟨hg, hlater⟩ := List.forall_mem_cons.1 hhits
      exact .inr ⟨hg, later, e, earlier, rfl, ha, hw, hlater⟩
  · rintro (⟨ha, hw⟩ | ⟨hf, later, e, earlier, rfl, ha, hw, hhits⟩)
    · exact ⟨[], f, log, rfl, ha, hw, List.forall_mem_nil _⟩
    · exact ⟨f :: later, e, earlier, rfl, ha, hw, List.forall_mem_cons.2 ⟨hf, hhits⟩⟩

namespace Hierarchy

variable {h : Hierarchy}

/-- A line is dirty if its address was written since it came in. -/
theorem dirty_of_mem_stack (hh : h.Holds k []) (hk : 0 < k) (hp : Ascending past) {line : Line}
    (hline : line ∈ stack k past) : line.dirty = true ↔ WrittenSince line.address (h.log past) := by
  induction past generalizing line with
  | nil => cases hline
  | cons r past ih =>
    have hp := (List.pairwise_cons.1 hp).2
    have hhit := ((hh.ran hk hp).serve hk hp r).2.1
    rw [← addresses_stack hk] at hhit
    rw [log, writtenSince_cons]
    -- requests for other addresses do not count
    have hother : line ∈ stack k past → r.address ≠ line.address → (line.dirty = true ↔
        r.address = line.address ∧ r.writes = true ∨
          (r.address = line.address → ((h.ran past).serve r).2.hit = true) ∧
            WrittenSince line.address (h.log past)) := by
      intro hmem hne
      rw [ih hp hmem]
      exact ⟨fun hw => .inr ⟨fun he => absurd he hne, hw⟩, fun hw => hw.elim (fun he => absurd he.1 hne) (·.2)⟩
    rw [stack] at hline
    rcases r.stacked_cases k (stack k past) with ⟨old, hold, ha, he⟩ | ⟨hno, he⟩
    · rw [he, List.mem_cons] at hline
      rcases hline with rfl | hline
      · have hhit := hhit.2 (ha ▸ List.mem_map_of_mem hold)
        rw [r.dirty_touched, r.address_touched, Bool.or_eq_true, ih hp hold, ha]
        simp [hhit]
      · exact hother (List.mem_of_mem_filter hline) (Ne.symm (by simpa using List.of_mem_filter hline))
    · rw [he] at hline
      rcases List.mem_cons.1 (List.mem_of_mem_take hline) with rfl | hmem
      · have hmiss : ((h.ran past).serve r).2.hit = false := by
          rw [Bool.eq_false_iff, ne_eq, hhit, List.mem_map]
          rintro ⟨line, hline, ha⟩
          exact hno line hline ha
        rw [r.dirty_fresh, r.address_fresh]
        simp [hmiss]
      · exact hother hmem (Ne.symm (hno line hmem))

theorem holds_of_isClear {k m n : Nat} (hc : IsClear [(k : Int), (m : Int), (n : Int)] false h) :
    0 < k ∧ h.Holds k [] ∧ h.l1.hits = 0 ∧ h.l1.misses = 0 := by
  obtain ⟨a, b, c, hs, ha, hb, hc, rfl⟩ := ofSizes_ok (isClear_iff.1 hc)
  obtain rfl : k = a := Nat.cast_inj.1 (List.cons.inj hs).1
  refine ⟨ha, ⟨Level.size_blank k, rfl, .of_eq (Level.valid_blank k), fun t ht => ?_⟩, rfl, rfl⟩
  cases t with
  | l1 => exact absurd rfl ht
  | l2 => exact ⟨Level.valid_blank b, rfl⟩
  | l3 => exact ⟨Level.valid_blank c, rfl⟩

/-- After requests in ascending cycles a cache that overwrites its victims holds the `k` addresses requested
most recently, stamped with their latest cycles and dirty if written since they came in. Its lower levels
are never used. A request is a hit if its address was requested before, and fewer than `k` others since,
and the counters count the hits and the misses. -/
theorem keeps_recent {k m n : Nat} (hc : IsClear [(k : Int), (m : Int), (n : Int)] false h)
    (hp : Ascending past) :
    ((h.ran past).l1.valid.map (·.address)).Perm ((recent past).take k) ∧
    (∀ line ∈ (h.ran past).l1.valid,
      (latest? line.address past).map (·.cycle) = some line.lastAccessed ∧
        (line.dirty = true ↔ WrittenSince line.address (h.log past))) ∧
    (∀ t, t ≠ .l1 → ((h.ran past).level t).valid = [] ∧ ((h.ran past).level t).hits = 0) ∧
    (∀ r, ((h.ran past).serve r).2.hit = true ↔
      r.address ∈ past.map (·.address) ∧ (between r.address past).card < k) ∧
    (h.ran past).l1.hits = (h.log past).countP (·.2.hit) ∧
    (h.ran past).l1.misses = (h.log past).countP (!·.2.hit) := by
  obtain ⟨hk, hh, hhits, hmisses⟩ := holds_of_isClear hc
  have hran := hh.ran hk hp
  have hcount := counters_ran hh hk hp
  rw [hhits, hmisses, Nat.zero_add, Nat.zero_add] at hcount
  refine ⟨?_, fun line hline => ?_, hran.below, fun r => ?_, hcount⟩
  · rw [← addresses_stack hk]
    exact hran.first.map _
  · have hmem := hran.first.mem_iff.1 hline
    exact ⟨stamp_of_mem_stack hk hmem, dirty_of_mem_stack hh hk hp hmem⟩
  · rw [← mem_take_recent]
    exact (hran.serve hk hp r).2.1

/-- Two lines and three addresses: the address requested longest ago goes, which did not come in first. -/
theorem keeps_recent_evicting :
    let h : Hierarchy := { l1 := .blank 2, l2 := .blank 1, l3 := .blank 1 }
    let writing (address cycle : Int) : Request := { address, cycle, purpose := .write 4 }
    let past := [writing 9 5, writing 7 3, writing 8 2, writing 7 1]
    IsClear [2, 1, 1] false h ∧ Ascending past ∧ ((h.ran past).l1.valid.map (·.address)).Perm [9, 7] ∧
      ¬ ((h.ran past).serve (writing 8 6)).2.hit = true := by
  intro h writing past
  have hc : IsClear [((2 : Nat) : Int), ((1 : Nat) : Int), ((1 : Nat) : Int)] false h := isClear_iff.2 rfl
  have hp : Ascending past := by
    unfold Ascending
    decide
  obtain ⟨hperm, -, -, hhit, -⟩ := keeps_recent hc hp
  exact ⟨hc, hp, hperm, fun h => absurd ((hhit _).1 h).2 (by decide)⟩

end Hierarchy

end PhaseMachine.Cache
