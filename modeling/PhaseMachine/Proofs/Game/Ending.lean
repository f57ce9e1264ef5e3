/-
The end of a game. An accepted action that uses the energy up ends the game, and nothing but a new start
brings energy back. Actions are accepted all the same: each of them counts on the clock and is applied to
the registers, so these stay as they are only if all later actions are turned down.
-/
import PhaseMachine.Proofs.Game.Accounts

namespace PhaseMachine.Game

section

variable {τ : Type} [Quantity τ] {g : Game τ}

/-- What is accepted depends on the level alone. -/
theorem Reachable.accepts_act (hg : g.Reachable) (i j : Instruction) : (g.act i).accepts j = g.accepts j := by
  rw [Bool.eq_iff_iff, (hg.act i).accepts_iff, hg.accepts_iff]
  unfold misuse?
  rw [g.level_act]

end

variable {g : Game Rat}

theorem Reachable.postings_eq_nil_iff (hg : g.Reachable) (actions : List Instruction) :
    g.postings actions = [] ↔ ∀ j ∈ actions, g.accepts j = false := by
  induction actions generalizing g with
  | nil => exact iff_of_true rfl fun j hj => absurd hj List.not_mem_nil
  | cons i actions ih =>
    rw [List.forall_mem_cons]
    cases h : g.accepts i with
    | true => simp [postings_of_accepts h]
    | false =>
      rw [postings_of_not_accepts h, ih (hg.act i)]
      simp only [hg.accepts_act, true_and]

/-- Without a posting only the rolls can change. -/
theorem acts_of_postings_nil {actions : List Instruction} (h : g.postings actions = []) :
    ∃ rolls, g.acts actions = { g with rolls } := by
  induction actions generalizing g with
  | nil => exact ⟨g.rolls, rfl⟩
  | cons i actions ih =>
    cases ha : g.accepts i with
    | true =>
      rw [postings_of_accepts ha] at h
      cases h
    | false =>
      rw [postings_of_not_accepts ha] at h
      obtain ⟨rolls, hrest⟩ := ih h
      obtain ⟨rolls', hfirst⟩ := act_of_not_accepts ha
      exact ⟨rolls, by rw [acts_cons, hrest, hfirst]⟩

/-- Once an accepted action has used the energy up, the game is over, and it stays over, without energy,
whatever actions follow. Its registers and its clock stay exactly if none of these actions is accepted as
things stand at the end. -/
theorem ended_stays_iff (hg : g.Reachable) {i : Instruction} (haccepted : g.accepts i = true)
    (hspent : (g.act i).energy = 0) (actions : List Instruction) :
    let ended := g.act i
    let later := ended.acts actions
    ended.playing = false ∧ later.energy = 0 ∧ later.playing = false ∧
    (later.registers = ended.registers ∧ later.cycle = ended.cycle ↔ ∀ j ∈ actions, ended.accepts j = false) := by
  intro ended later
  have hended : ended.Reachable := hg.act i
  have hstopped : ¬ ended.playing = true := fun hp => by
    have hpos := ((settles_act haccepted).playing.1 hp).2
    rw [hspent] at hpos
    exact lt_irrefl 0 hpos
  have henergy : later.energy = 0 := by
    refine (energy_acts hspent.ge actions).trans (max_eq_left ?_)
    rw [show ended.energy = 0 from hspent, zero_sub]
    exact neg_nonpos.2 (energies_nonneg _)
  have hplaying : later.playing = true ↔ 0 < later.energy :=
    playing_acts hspent.ge (iff_of_false hstopped hspent.not_gt) actions
  rw [henergy] at hplaying
  refine ⟨Bool.eq_false_iff.2 hstopped, henergy, Bool.eq_false_iff.2 fun hp => lt_irrefl 0 (hplaying.1 hp), ?_⟩
  rw [← hended.postings_eq_nil_iff]
  constructor
  · rintro ⟨-, hcycle⟩
    -- every posting takes at least a cycle
    have hsum : ((ended.postings actions).map Posting.cycles).sum = 0 := by
      have hclock := ended.cycle_acts actions
      rw [show (ended.acts actions).cycle = ended.cycle from hcycle] at hclock
      omega
    by_contra hne
    obtain ⟨p, hp⟩ := List.exists_mem_of_ne_nil _ hne
    have hzero := List.sum_eq_zero_iff.1 hsum _ (List.mem_map_of_mem hp)
    exact absurd hzero p.cycles_pos.ne'
  · intro hnil
    obtain ⟨rolls, hsame⟩ := acts_of_postings_nil hnil
    rw [show later = _ from hsame]
    exact ⟨rfl, rfl⟩

def load5 : Instruction :=
  { opcode := .load, operand1 := some (.literal 5), destination := .given "R1" }

/-- A game at the second level with energy for one action. -/
def brief : Game Rat :=
  (make 3 {}).start 2

/-- After its only action arithmetic without its registers is still turned down. -/
theorem ended_stays_iff_rejected :
    brief.Reachable ∧ brief.accepts load5 = true ∧ (brief.act load5).energy = 0 ∧
    (brief.act load5).playing = false ∧
    ((brief.act load5).acts [lacking]).registers = (brief.act load5).registers ∧
    ((brief.act load5).acts [lacking]).cycle = 3 := by
  have hg : brief.Reachable := (Reachable.make 3 {}).perform (.start 2)
  have haccepted : brief.accepts load5 = true := by decide +kernel
  have hspent : (brief.act load5).energy = 0 := by decide +kernel
  obtain ⟨hplaying, -, -, hiff⟩ := ended_stays_iff hg haccepted hspent [lacking]
  obtain ⟨hregisters, hcycle⟩ := hiff.2 (List.forall_mem_singleton.2 (by decide +kernel))
  exact ⟨hg, haccepted, hspent, hplaying, hregisters, hcycle.trans (by decide +kernel)⟩

/-- In a game that is over a move is accepted: it sets its register and takes its cycle. -/
theorem ended_goes_on :
    let ended := brief.act load5
    let move : Instruction := { opcode := .mov, operand1 := some (.literal 7), destination := .given "R2" }
    brief.Reachable ∧ brief.accepts load5 = true ∧ ended.energy = 0 ∧ ended.playing = false ∧
    ended.registers.toMap = [("R1", 5), ("R2", 0), ("R3", 0)] ∧ ended.cycle = 3 ∧
    (ended.act move).registers.toMap = [("R1", 5), ("R2", 7), ("R3", 0)] ∧ (ended.act move).cycle = 4 :=
  ⟨(Reachable.make 3 {}).perform (.start 2), by decide +kernel, by decide +kernel, by decide +kernel,
    by decide +kernel, by decide +kernel, by decide +kernel, by decide +kernel⟩

end PhaseMachine.Game
