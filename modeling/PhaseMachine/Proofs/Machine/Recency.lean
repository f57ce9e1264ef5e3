/-
Which line makes way. The stamp of a valid line is the cycle of the latest visit to its address, and
cycles start over with each program while the lines stay. So a full first level gives up a line with the
least cycle, and that is the line visited longest ago exactly if no other line was visited last under an
earlier program.
-/
import PhaseMachine.Proofs.Machine.Visits

namespace PhaseMachine.Machine

variable {τ : Type}

/-! ## Stamps and visits -/

/-- What ties a trace to the machine: the visits are in order and not in the future, and the stamps of
the valid lines date their latest visits. -/
structure Traced (m : Machine τ) (t : Trace) : Prop where
  sorted : t.Sorted
  past : ∀ x ∈ t.visits, x.load < t.loads ∨ x.load = t.loads ∧ x.cycle ≤ m.cycle
  stamps : ∀ line ∈ m.storage.cache.valid,
    ∃ x, t.latest? line.address = some x ∧ line.lastAccessed = x.cycle

variable {m n : Machine τ} {t : Trace}

theorem Traced.of_valid_eq_nil (h : m.storage.cache.valid = []) : Traced m {} := by
  constructor
  · exact .nil
  · rintro x ⟨⟩
  · intro line hline
    rw [h] at hline
    cases hline

theorem Traced.later (h : Traced m t) (hc : m.cycle ≤ n.cycle)
    (hv : n.storage.cache.valid = m.storage.cache.valid) : Traced n t := by
  constructor
  · exact h.sorted
  · intro x hx
    rcases h.past x hx with hl | ⟨hl, hxc⟩
    · exact .inl hl
    · exact .inr ⟨hl, hxc.trans hc⟩
  · intro line hline
    exact h.stamps line (hv ▸ hline)

/-- Loading starts the cycles over and counts the program. -/
theorem Traced.loaded (h : Traced m t) (hv : n.storage.cache.valid = m.storage.cache.valid) :
    Traced n { t with loads := t.loads + 1 } := by
  constructor
  · exact h.sorted
  · intro x hx
    refine .inl ?_
    show x.load < t.loads + 1
    rcases h.past x hx with hl | ⟨hl, -⟩ <;> omega
  · intro line hline
    exact h.stamps line (hv ▸ hline)

/-- A visit is the latest one to its address, and leaves the latest ones to others. -/
theorem Traced.visited (h : Traced m t) {address : Int} (hr : m.storage.cache.Roomy)
    (hd : (m.storage.cache.valid.map (·.address)).Nodup) (hc : n.cycle = m.cycle + 1)
    (hv : m.storage.cache.Visited n.storage.cache address ↑(m.cycle + 1)) :
    Traced n { t with visits := ⟨address, t.loads, m.cycle + 1⟩ :: t.visits } := by
  refine ⟨List.pairwise_cons.2 ⟨fun x hx => ?_, h.sorted⟩, fun x hx => ?_, fun line hline => ?_⟩
  · show x.load < t.loads ∨ x.load = t.loads ∧ x.cycle < m.cycle + 1
    rcases h.past x hx with hl | ⟨hl, hxc⟩
    · exact .inl hl
    · exact .inr ⟨hl, by omega⟩
  · rcases List.mem_cons.1 hx with rfl | hx
    · exact .inr ⟨rfl, hc.ge⟩
    · rcases h.past x hx with hl | ⟨hl, hxc⟩
      · exact .inl hl
      · exact .inr ⟨hl, by omega⟩
  · -- the visited line has the new visit for its latest; the other lines kept stamp and latest visit
    unfold Trace.latest?
    rcases hv.valid_line hr hd hline with ⟨ha, hs⟩ | ⟨hold, ha⟩
    · refine ⟨_, List.find?_cons_of_pos ?_, hs⟩
      rw [ha]
      exact beq_self_eq_true address
    · obtain ⟨x, hx, hs⟩ := h.stamps line hold
      refine ⟨x, ?_, hs⟩
      rw [List.find?_cons_of_neg (by simpa using Ne.symm ha)]
      exact hx

/-! ## The victim -/

/-- The victim of a full first level has the least cycle, so its latest visit can only be after that of
another line if it was made under a later program. -/
theorem Traced.victim_oldest_iff (h : Traced m t) (hr : m.storage.cache.Roomy)
    (hfull : ∀ line ∈ m.storage.cache.l1.lines, line.valid = true) :
    let l1 := m.storage.cache.l1
    (∀ line ∈ l1.lines, t.age line.address ≤ t.age (l1.line l1.victim).address) ↔
      ∀ line ∈ l1.lines, t.lastLoad (l1.line l1.victim).address ≤ t.lastLoad line.address := by
  intro l1
  obtain ⟨hlt, hleast, -⟩ := Cache.Level.victim_of_full (l := l1) (hr .l1) hfull
  have hline : ∀ line ∈ l1.lines, ∃ x, t.latest? line.address = some x ∧ line.lastAccessed = x.cycle :=
    fun line hl =>
      h.stamps line (Cache.Hierarchy.mem_valid.2 ⟨.l1, Cache.Level.mem_valid.2 ⟨hl, hfull line hl⟩⟩)
  obtain ⟨x, hx, hxs⟩ := hline _ (Cache.Level.line_mem hlt)
  refine forall₂_congr fun line hl => ?_
  obtain ⟨y, hy, hys⟩ := hline line hl
  have hle : x.cycle ≤ y.cycle := by
    have := hleast line hl
    omega
  rw [Trace.age_le_iff h.sorted hx hy]
  -- cycles alone never put `y` before `x`, so it is up to the programs
  unfold Trace.lastLoad
  rw [hx, hy]
  show ¬ y.Before x ↔ x.load ≤ y.load
  unfold Visit.Before
  omega

/-! ## Every run -/

variable [Quantity τ]

theorem Traced.perform (hm : m.Sound) (h : Traced m t) (op : Op τ) :
    Traced (m.perform op) (traced t m op) := by
  by_cases hb : op.between = true
  · have hv := (m.still_between hb).valid
    obtain ⟨stepDuration, bus, timers, clock, cache, he, -⟩ := m.between_eq hb
    rw [traced_between hb]
    exact h.later (by rw [he]) hv
  · cases op with
    | load program => exact h.loaded rfl
    | reset => exact .of_valid_eq_nil hm.empty
    | step =>
      show Traced m.step.machine (traced t m .step)
      unfold traced
      rcases m.cache_step with ⟨hv, hs⟩ | ⟨address, hv, hc, hs⟩
      · rw [hv]
        exact h.later m.cycle_le_step (by rw [hs])
      · rw [hv]
        exact h.visited hm.roomy_storage hm.coherent_storage.distinct hc hs
    | _ => exact absurd rfl hb

theorem Traced.after (hm : m.Sound) (h : Traced m t) (ops : List (Op τ)) :
    Traced (m.after ops) (traceFrom t m ops) := by
  induction ops generalizing m t with
  | nil => exact h
  | cons op ops ih => exact ih (hm.perform op) (Traced.perform hm h op)

/-- Along a run from a machine as it is made, the trace stays tied to the machine. -/
theorem traced_after {s : Setup τ} {clock : τ} {made : Machine τ} (h : ofSetup s clock = .ok made)
    (ops : List (Op τ)) : Traced (made.after ops) (made.trace ops) := by
  have hsound := sound_of_setup h
  refine Traced.after hsound (.of_valid_eq_nil ?_) ops
  rw [storage_of_setup h]
  exact hsound.empty

/-! ## Evictions -/

/-- At a visit that no level of the cache can serve, while all lines of the first level are valid, the
fresh line takes the place of the victim. No other line of that level was visited longer ago exactly if
none was visited last under an earlier program than the victim. -/
theorem evicts_oldest_iff {s : Setup τ} {clock : τ} {made : Machine τ} (h : ofSetup s clock = .ok made)
    (ops : List (Op τ)) {address : Int} (hv : (made.after ops).visits? = some address)
    (hmiss : (made.after ops).storage.cache.locate? address = none)
    (hfull : ∀ line ∈ (made.after ops).storage.cache.l1.lines, line.valid = true) :
    let l1 := (made.after ops).storage.cache.l1
    (∃ fresh : Cache.Line, fresh.valid = true ∧ fresh.address = address ∧
      (made.after ops).step.machine.storage.cache.l1.lines = l1.lines.set l1.victim fresh) ∧
    l1.victim < l1.size ∧
    ((∀ line ∈ l1.lines,
        (made.trace ops).age line.address ≤ (made.trace ops).age (l1.line l1.victim).address) ↔
      ∀ line ∈ l1.lines,
        (made.trace ops).lastLoad (l1.line l1.victim).address ≤ (made.trace ops).lastLoad line.address) := by
  have hroomy := ((Reachable.made h).after ops).sound.roomy_storage
  refine ⟨?_, (Cache.Level.victim_of_full (hroomy .l1) hfull).1, ?_⟩
  · rcases (made.after ops).cache_step with ⟨hn, -⟩ | ⟨a, ha, -, hvis⟩
    · rw [hv] at hn
      cases hn
    · rw [hv] at ha
      cases ha
      exact hvis.of_miss hmiss
  · exact (traced_after h ops).victim_oldest_iff hroomy hfull

/-- A load of the general register from an address. -/
def loadFrom (address : Int) : Instruction :=
  { opcode := .load, destination := .given "R1", address := .given address }

/-- One program that loads from three addresses, up to the visit to the last one. -/
def oneProgramRun : List (Op Rat) :=
  .load [loadFrom 0, loadFrom 1, loadFrom 2] :: List.replicate 10 .step

/-- Within one program the line visited longest ago makes way. -/
theorem evicts_oldest_in_program :
    let m := (small false false).after oneProgramRun
    (∃ fresh : Cache.Line, fresh.address = 2 ∧
      m.step.machine.storage.cache.l1.lines = m.storage.cache.l1.lines.set 0 fresh) ∧
    ∀ line ∈ m.storage.cache.l1.lines,
      ((small false false).trace oneProgramRun).age line.address ≤
        ((small false false).trace oneProgramRun).age 0 := by
  intro m
  have hv : m.visits? = some 2 := by decide +kernel
  obtain ⟨⟨fresh, -, ha, hset⟩, -, hiff⟩ := evicts_oldest_iff (ofSetup_small false false) oneProgramRun hv
    (by decide +kernel) (by decide +kernel)
  have hvictim : m.storage.cache.l1.victim = 0 := by decide +kernel
  have haddress : (m.storage.cache.l1.line 0).address = 0 := by decide +kernel
  rw [hvictim, haddress] at hiff
  refine ⟨⟨fresh, ha, ?_⟩, hiff.2 (by decide +kernel)⟩
  rw [hvictim] at hset
  exact hset

/-- Two programs that load from two addresses each, up to the visit to the last one. -/
def twoProgramsRun : List (Op Rat) :=
  .load [loadFrom 0, loadFrom 1] :: List.replicate 8 .step ++
  .load [loadFrom 2, loadFrom 3] :: List.replicate 6 .step

/-- Across programs the line visited last may make way: the second program brings address 2 in at a cycle
below that of address 1 under the first, and gives it up for address 3. -/
theorem evicts_latest_across_programs :
    let m := (small false false).after twoProgramsRun
    let t := (small false false).trace twoProgramsRun
    m.visits? = some 3 ∧ m.storage.cache.locate? 3 = none ∧
    (∀ line ∈ m.storage.cache.l1.lines, line.valid = true) ∧
    m.storage.cache.l1.lines.map (·.address) = [2, 1] ∧
    m.step.machine.storage.cache.l1.lines.map (·.address) = [3, 1] ∧
    t.age 2 = 0 ∧ t.age 1 = 1 ∧
    ¬ ∀ line ∈ m.storage.cache.l1.lines,
      t.age line.address ≤ t.age (m.storage.cache.l1.line m.storage.cache.l1.victim).address := by
  decide +kernel

end PhaseMachine.Machine
