/-
The accounts of a game, kept in exact fractions. An action is rejected, is carried out for a charge, or
fails. Every one that is carried out is posted with what it was charged for; the clock and the energy of
the game are what the postings add up to, and the rolls are taken by the postings in turn.
-/
import PhaseMachine.Proofs.Game.Kernel
import PhaseMachine.Proofs.Scheduler.Order

namespace PhaseMachine.Game

section

variable {τ : Type} [Quantity τ]

/-! ## Actions in a row -/

def acts (g : Game τ) (actions : List Instruction) : Game τ :=
  actions.foldl act g

@[simp]
theorem acts_cons (g : Game τ) (i : Instruction) (actions : List Instruction) :
    g.acts (i :: actions) = (g.act i).acts actions := rfl

theorem Reachable.act {g : Game τ} (h : g.Reachable) (i : Instruction) : (g.act i).Reachable :=
  h.perform (.act i)

theorem Reachable.acts {g : Game τ} (h : g.Reachable) (actions : List Instruction) :
    (g.acts actions).Reachable := by
  induction actions generalizing g with
  | nil => exact h
  | cons i actions ih => exact ih (h.act i)

/-! ## What becomes of an action -/

/-- Whether an action is carried out for its charge. -/
def accepts (g : Game τ) (i : Instruction) : Bool :=
  (g.misuse? i).isNone && (g.chargeFor i).1.isAccepted

/-- Whether the rules turn an action down. -/
def rejects (g : Game τ) (i : Instruction) : Bool :=
  (g.misuse? i).isNone && !(g.chargeFor i).1.isAccepted

/-- The roll that an accepted action takes, if it takes one. -/
def roll? (g : Game τ) : Option τ :=
  if 2 < g.level then some g.rolls.next.1 else none

def rollsAfter (g : Game τ) : Rolls τ :=
  if 2 < g.level then g.rolls.next.2 else g.rolls

/-- What an accepted action costs: the price of its opcode, and more if its roll is too high. -/
def price (g : Game τ) (i : Instruction) : Nat × τ :=
  let base : τ := cost i.opcode (Quantity.ofInt (inUse g.registers.registers))
  if g.roll?.any (fun roll => penaltyThreshold < roll) then
    (i.opcode.cycles + penaltyCycles, base + penaltyEnergy)
  else (i.opcode.cycles, base)

/-- The rules reject an action for the registers that it lacks, and else charge its price. -/
theorem chargeFor_cases (g : Game τ) (i : Instruction) :
    (rejectedFor i g.registers.registers g.level ≠ [] ∧
      ∃ cycles energy missing, g.chargeFor i = (.rejected cycles energy missing, g.rolls)) ∨
    (rejectedFor i g.registers.registers g.level = [] ∧
      g.chargeFor i = (.accepted (g.price i).1 (g.price i).2, g.rollsAfter)) := by
  unfold chargeFor charge price roll? rollsAfter penaltyLevel
  dsimp only
  cases rejectedFor i g.registers.registers g.level with
  | cons name names => exact .inl ⟨nofun, _, _, _, rfl⟩
  | nil =>
    refine .inr ⟨rfl, ?_⟩
    by_cases hlevel : 2 < g.level
    · simp only [hlevel, if_true, Option.any_some, decide_eq_true_eq]
      split <;> rfl
    · simp [hlevel]

/-- An action fails, and may have taken a roll; or it is rejected, and nothing changes; or it is accepted
for its price. -/
theorem act_cases (g : Game τ) (i : Instruction) :
    (g.misuse? i ≠ none ∧ g.accepts i = false ∧ g.rejects i = false ∧
      (g.act i = g ∨ g.act i = { g with rolls := g.rollsAfter })) ∨
    (g.misuse? i = none ∧ rejectedFor i g.registers.registers g.level ≠ [] ∧ g.accepts i = false ∧
      g.rejects i = true ∧ g.act i = g) ∨
    (g.misuse? i = none ∧ rejectedFor i g.registers.registers g.level = [] ∧ g.accepts i = true ∧
      g.rejects i = false ∧
      g.act i = { g with rolls := g.rollsAfter }.accept i (g.price i).1 (g.price i).2) := by
  unfold accepts rejects
  cases hm : g.misuse? i with
  | some m =>
    refine .inl ⟨nofun, rfl, rfl, ?_⟩
    unfold act
    split
    · exact .inl rfl
    · rw [hm]
      rcases g.chargeFor_cases i with ⟨-, cycles, energy, missing, hc⟩ | ⟨-, hc⟩
      · rw [hc]
        exact .inl rfl
      · rw [hc]
        exact .inr rfl
  | none =>
    have hcharge : chargeMisuse? i g.level = none := by
      unfold misuse? at hm
      exact (Option.or_eq_none_iff.1 hm).1
    unfold act
    rw [hcharge, hm]
    rcases g.chargeFor_cases i with ⟨hlacks, cycles, energy, missing, hc⟩ | ⟨hlacks, hc⟩
    · rw [hc]
      exact .inr (.inl ⟨rfl, hlacks, rfl, rfl, rfl⟩)
    · rw [hc]
      exact .inr (.inr ⟨rfl, hlacks, rfl, rfl, rfl⟩)

/-- An action that is not accepted touches nothing but the rolls. -/
theorem act_of_not_accepts {g : Game τ} {i : Instruction} (h : g.accepts i = false) :
    ∃ rolls, g.act i = { g with rolls } := by
  rcases g.act_cases i with ⟨-, -, -, ha | ha⟩ | ⟨-, -, -, -, ha⟩ | ⟨-, -, hacc, -⟩
  · exact ⟨g.rolls, ha⟩
  · exact ⟨g.rollsAfter, ha⟩
  · exact ⟨g.rolls, ha⟩
  · rw [h] at hacc
    cases hacc

theorem act_of_accepts {g : Game τ} {i : Instruction} (h : g.accepts i = true) :
    g.act i = { g with rolls := g.rollsAfter }.accept i (g.price i).1 (g.price i).2 := by
  rcases g.act_cases i with ⟨-, hacc, -⟩ | ⟨-, -, hacc, -⟩ | ⟨-, -, -, -, ha⟩
  · rw [h] at hacc
    cases hacc
  · rw [h] at hacc
    cases hacc
  · exact ha

theorem act_of_rejects {g : Game τ} {i : Instruction} (h : g.rejects i = true) : g.act i = g := by
  rcases g.act_cases i with ⟨-, -, hrej, -⟩ | ⟨-, -, -, -, ha⟩ | ⟨-, -, -, hrej, -⟩
  · rw [h] at hrej
    cases hrej
  · exact ha
  · rw [h] at hrej
    cases hrej

theorem level_act (g : Game τ) (i : Instruction) : (g.act i).level = g.level := by
  cases h : g.accepts i with
  | true =>
    rw [act_of_accepts h]
    rfl
  | false =>
    obtain ⟨rolls, ha⟩ := act_of_not_accepts h
    rw [ha]

theorem level_acts (g : Game τ) (actions : List Instruction) : (g.acts actions).level = g.level := by
  induction actions generalizing g with
  | nil => rfl
  | cons i actions ih => rw [acts_cons, ih, level_act]

/-! ## Which actions are rejected -/

/-- Whether arithmetic names a register that no game has, at a level that minds: in an operand, or as its
destination. -/
def Rejected (level : Int) (i : Instruction) : Prop :=
  i.opcode.isArithmetic = true ∧ 1 < level ∧
    ∃ name, (i.operand1 = some (.register name) ∨ i.operand2 = some (.register name) ∨
      i.destination = .given name ∧ name ≠ "") ∧ name ∉ ["R1", "R2", "R3"]

theorem mem_required {i : Instruction} {name : String} :
    name ∈ required i ↔ i.operand1 = some (.register name) ∨ i.operand2 = some (.register name) ∨
      i.destination = .given name ∧ name ≠ "" := by
  have hoperand : ∀ o : Option Operand,
      name ∈ (o.bind Operand.registerName?).toList ↔ o = some (.register name) := fun o => by
    rcases o with _ | x | other <;> simp [Operand.registerName?, eq_comm]
  have hdestination : name ∈ (destinationName? i.destination).toList ↔
      i.destination = .given name ∧ name ≠ "" := by
    unfold destinationName?
    split
    · next other hd =>
      rw [hd]
      by_cases he : other = ""
      · simp [he, eq_comm]
      · simp only [if_neg he, Option.toList_some, List.mem_singleton, Field.given.injEq]
        exact ⟨fun hn => ⟨hn.symm, hn ▸ he⟩, fun hn => hn.1.symm⟩
    · next hd =>
      simp only [Option.toList_none, List.not_mem_nil, false_iff]
      exact fun hn => hd name hn.1
  rw [required, List.mem_append, List.mem_append, hoperand, hoperand, hdestination, or_assoc]

theorem Reachable.rejectedFor_iff {g : Game τ} (hg : g.Reachable) (i : Instruction) :
    rejectedFor i g.registers.registers g.level ≠ [] ↔ Rejected g.level i := by
  have hmissing : missing g.registers.registers (required i) ≠ [] ↔
      ∃ name, name ∈ required i ∧ name ∉ ["R1", "R2", "R3"] := by
    rw [← hg.names, missing, Ne, List.filter_eq_nil_iff]
    simp [RegisterBank.names]
  simp only [mem_required] at hmissing
  unfold rejectedFor Rejected registerLevel
  rw [← hmissing, ← and_assoc]
  split
  · next h => exact (and_iff_right h).symm
  · next h => simp [h]

theorem Reachable.rejects_iff {g : Game τ} (hg : g.Reachable) (i : Instruction) :
    g.rejects i = true ↔ g.misuse? i = none ∧ Rejected g.level i := by
  rw [← hg.rejectedFor_iff]
  rcases g.act_cases i with ⟨hm, -, hrej, -⟩ | ⟨hm, hlacks, -, hrej, -⟩ | ⟨hm, hlacks, -, hrej, -⟩
  · simp [hm, hrej]
  · simp [hm, hlacks, hrej]
  · simp [hm, hlacks, hrej]

theorem Reachable.accepts_iff {g : Game τ} (hg : g.Reachable) (i : Instruction) :
    g.accepts i = true ↔ g.misuse? i = none ∧ ¬ Rejected g.level i := by
  rw [← hg.rejectedFor_iff]
  rcases g.act_cases i with ⟨hm, hacc, -⟩ | ⟨hm, hlacks, hacc, -⟩ | ⟨hm, hlacks, hacc, -⟩
  · simp [hm, hacc]
  · simp [hm, hlacks, hacc]
  · simp [hm, hlacks, hacc]

end

/-! ## Postings -/

/-- What an accepted action is charged for: its opcode, the registers that held another value than zero
before it, and its roll. -/
structure Posting where
  opcode : Opcode
  inUse : Nat
  roll? : Option Rat
deriving DecidableEq

namespace Posting

def isPenalised (p : Posting) : Bool :=
  p.roll?.any fun roll => 7 / 10 < roll

def cycles (p : Posting) : Nat :=
  p.opcode.cycles + if p.isPenalised then 2 else 0

def energy (p : Posting) : Rat :=
  p.opcode.cycles + p.inUse * (1 / 2) + if p.isPenalised then 1 else 0

theorem cycles_pos (p : Posting) : 0 < p.cycles := by
  refine Nat.lt_of_lt_of_le ?_ (Nat.le_add_right ..)
  cases p.opcode <;> decide

theorem energy_nonneg (p : Posting) : 0 ≤ p.energy := by
  unfold energy
  split <;> positivity

end Posting

def posting (g : Game Rat) (i : Instruction) : Posting :=
  ⟨i.opcode, inUse g.registers.registers, g.roll?⟩

/-- The postings of the actions that are accepted, one after the other. -/
def postings (g : Game Rat) : List Instruction → List Posting
  | [] => []
  | i :: actions => if g.accepts i then g.posting i :: (g.act i).postings actions else (g.act i).postings actions

variable {g : Game Rat} {i : Instruction}

theorem price_eq (g : Game Rat) (i : Instruction) :
    g.price i = ((g.posting i).cycles, (g.posting i).energy) := by
  have hcount : ∀ n : Nat, (Quantity.ofInt n : Rat) = n := fun n => Int.cast_natCast n
  have hthreshold : (penaltyThreshold : Rat) = 7 / 10 := by decide +kernel
  have hhalf : (half : Rat) = 1 / 2 := by decide +kernel
  have hpenalty : (penaltyEnergy : Rat) = 1 := by decide +kernel
  unfold price Posting.cycles Posting.energy Posting.isPenalised posting cost
  rw [hthreshold, hhalf, hpenalty, hcount, hcount]
  dsimp only
  split
  · rfl
  · rw [Nat.add_zero, add_zero]

/-- What an accepted action changes. -/
structure Settles (g after : Game Rat) (p : Posting) : Prop where
  cycle : after.cycle = g.cycle + p.cycles
  energy : after.energy = max 0 (g.energy - p.energy)
  playing : after.playing = true ↔ g.playing = true ∧ 0 < after.energy
  rolls : after.rolls = g.rollsAfter

theorem settles_act (h : g.accepts i = true) : g.Settles (g.act i) (g.posting i) := by
  rw [act_of_accepts h, price_eq]
  refine ⟨rfl, Quantity.atLeast_eq_max 0 _, ?_, rfl⟩
  show (g.playing && !decide (_ ≤ (0 : Rat))) = true ↔ _
  rw [Bool.and_eq_true, Bool.not_eq_true', decide_eq_false_iff_not, not_le]
  rfl

/-! ## What a row of postings adds up to -/

theorem postings_of_accepts (h : g.accepts i = true) (actions : List Instruction) :
    g.postings (i :: actions) = g.posting i :: (g.act i).postings actions :=
  if_pos h

theorem postings_of_not_accepts (h : g.accepts i = false) (actions : List Instruction) :
    g.postings (i :: actions) = (g.act i).postings actions :=
  if_neg (Bool.eq_false_iff.1 h)

theorem cycle_acts (g : Game Rat) (actions : List Instruction) :
    (g.acts actions).cycle = g.cycle + ((g.postings actions).map Posting.cycles).sum := by
  induction actions generalizing g with
  | nil => rfl
  | cons i actions ih =>
    rw [acts_cons, ih]
    cases h : g.accepts i with
    | true => rw [postings_of_accepts h, (settles_act h).cycle, List.map_cons, List.sum_cons, Nat.add_assoc]
    | false =>
      obtain ⟨rolls, ha⟩ := act_of_not_accepts h
      rw [postings_of_not_accepts h, ha]

theorem energies_nonneg (ps : List Posting) : 0 ≤ (ps.map Posting.energy).sum := by
  refine List.sum_nonneg fun c hc => ?_
  obtain ⟨p, -, rfl⟩ := List.mem_map.1 hc
  exact p.energy_nonneg

/-- Stopping at zero after every charge comes to the same as stopping there once after all of them. -/
theorem energy_acts (he : 0 ≤ g.energy) (actions : List Instruction) :
    (g.acts actions).energy = max 0 (g.energy - ((g.postings actions).map Posting.energy).sum) := by
  induction actions generalizing g with
  | nil =>
    show g.energy = max 0 (g.energy - 0)
    rw [sub_zero, max_eq_right he]
  | cons i actions ih =>
    rw [acts_cons]
    cases h : g.accepts i with
    | true =>
      have hs := settles_act h
      have hrest := energies_nonneg ((g.act i).postings actions)
      rw [ih (hs.energy ▸ le_max_left ..), hs.energy, postings_of_accepts h, List.map_cons, List.sum_cons]
      rcases le_total (g.energy - (g.posting i).energy) 0 with hle | hle
      · rw [max_eq_left hle, max_eq_left (by linarith), max_eq_left (by linarith)]
      · rw [max_eq_right hle, sub_sub]
    | false =>
      obtain ⟨rolls, ha⟩ := act_of_not_accepts h
      rw [postings_of_not_accepts h, ih (by rw [ha]; exact he), ha]

/-- A game goes on exactly while it has energy. -/
theorem playing_acts (he : 0 ≤ g.energy) (hp : g.playing = true ↔ 0 < g.energy) (actions : List Instruction) :
    (g.acts actions).playing = true ↔ 0 < (g.acts actions).energy := by
  induction actions generalizing g with
  | nil => exact hp
  | cons i actions ih =>
    rw [acts_cons]
    cases h : g.accepts i with
    | true =>
      have hs := settles_act h
      refine ih (hs.energy ▸ le_max_left ..) (hs.playing.trans ⟨And.right, fun hpos => ⟨hp.2 ?_, hpos⟩⟩)
      rw [hs.energy, lt_max_iff] at hpos
      have := (g.posting i).energy_nonneg
      rcases hpos with hpos | hpos
      · exact absurd hpos (lt_irrefl 0)
      · linarith
    | false =>
      obtain ⟨rolls, ha⟩ := act_of_not_accepts h
      exact ih (by rw [ha]; exact he) (by rw [ha]; exact hp)

/-! ## Rolls in turn -/

/-- The rolls after a number of them were taken. -/
def Rolls.drop (r : Rolls Rat) (n : Nat) : Rolls Rat :=
  { ahead := r.ahead.drop n, taken := r.taken + n }

/-- The roll at a place, counted from the next one. -/
def Rolls.at (r : Rolls Rat) (n : Nat) : Rat :=
  r.ahead.getD n 0

theorem Rolls.next_eq (r : Rolls Rat) : r.next = (r.at 0, r.drop 1) := by
  unfold Rolls.next Rolls.at Rolls.drop
  split
  · next h =>
    rw [h]
    rfl
  · next h =>
    rw [h]
    rfl

theorem Rolls.at_drop (r : Rolls Rat) (n k : Nat) : (r.drop n).at k = r.at (n + k) := by
  simp [Rolls.at, Rolls.drop, List.getD_eq_getElem?_getD, List.getElem?_drop]

theorem Rolls.drop_drop (r : Rolls Rat) (n k : Nat) : (r.drop n).drop k = r.drop (n + k) := by
  simp only [Rolls.drop, List.drop_drop, Nat.add_assoc]

/-- A well-typed action that is not accepted is rejected. -/
theorem act_of_wellTyped (hw : i.WellTyped) (h : g.accepts i = false) : g.act i = g := by
  have hm := g.misuse?_of_wellTyped hw
  rcases g.act_cases i with ⟨hne, -⟩ | ⟨-, -, -, -, ha⟩ | ⟨-, -, hacc, -⟩
  · exact absurd hm hne
  · exact ha
  · rw [h] at hacc
    cases hacc

/-- Above the second level each accepted action takes the next roll, and otherwise none is taken. -/
theorem rolls_acts {actions : List Instruction} (hw : ∀ i ∈ actions, i.WellTyped) (g : Game Rat) :
    (g.postings actions).map (·.roll?) = (List.range (g.postings actions).length).map (fun k =>
        if 2 < g.level then some (g.rolls.at k) else none) ∧
      (g.acts actions).rolls =
        if 2 < g.level then g.rolls.drop (g.postings actions).length else g.rolls := by
  induction actions generalizing g with
  | nil => exact ⟨rfl, (ite_self _).symm⟩
  | cons i actions ih =>
    obtain ⟨hmap, hrolls⟩ := ih (fun j hj => hw j (List.mem_cons_of_mem i hj)) (g.act i)
    rw [acts_cons, hrolls]
    cases h : g.accepts i with
    | true =>
      rw [postings_of_accepts h, List.map_cons, hmap, List.length_cons, List.range_succ_eq_map, List.map_cons,
        List.map_map, (settles_act h).rolls, level_act]
      unfold rollsAfter posting roll?
      by_cases hlevel : 2 < g.level
      · simp only [if_pos hlevel, Rolls.next_eq, Rolls.at_drop, Rolls.drop_drop, Nat.add_comm 1]
        exact ⟨rfl, trivial⟩
      · simp only [if_neg hlevel]
        exact ⟨rfl, trivial⟩
    | false =>
      rw [postings_of_not_accepts h, hmap, act_of_wellTyped (hw i (List.mem_cons_self ..)) h]
      exact ⟨rfl, rfl⟩

/-! ## Whole games -/

/-- In every game that comes about with energy to start from, once it is started at a level, whatever
actions follow: the clock shows the cycles of the postings, and the energy is what their costs leave of the
energy at the start, or zero; it is never more than that, and the game goes on exactly while it is positive.
With well-typed actions the postings take the rolls in turn above the second level, and else none is taken.
An action at any point that does not fail is rejected if it is arithmetic above the first level and names a
register that no game has, and accepted otherwise; a rejected one changes nothing. A well-typed one never
fails. -/
theorem accounts_balance {g : Game Rat} (hg : g.Reachable) (hmax : 0 < g.maxEnergy) (level : Int)
    (actions : List Instruction) :
    let opened := g.start level
    let paid := opened.postings actions
    let now := opened.acts actions
    now.cycle = (paid.map Posting.cycles).sum ∧
    now.energy = max 0 (g.maxEnergy - (paid.map Posting.energy).sum) ∧
    0 ≤ now.energy ∧ now.energy ≤ g.maxEnergy ∧ (now.playing = true ↔ 0 < now.energy) ∧
    ((∀ i ∈ actions, i.WellTyped) →
      paid.map (·.roll?) = (List.range paid.length).map (fun k =>
        if 2 < level then some (g.rolls.at k) else none) ∧
      now.rolls = if 2 < level then g.rolls.drop paid.length else g.rolls) ∧
    ∀ i, (now.rejects i = true ↔ now.misuse? i = none ∧ Rejected level i) ∧
      (now.accepts i = true ↔ now.misuse? i = none ∧ ¬ Rejected level i) ∧
      (now.rejects i = true → now.act i = now) ∧ (i.WellTyped → now.misuse? i = none) := by
  intro opened paid now
  have hstart : opened.energy = g.maxEnergy := rfl
  have hnonneg : 0 ≤ opened.energy := hmax.le
  have henergy : now.energy = max 0 (g.maxEnergy - (paid.map Posting.energy).sum) := energy_acts hnonneg actions
  have hlevel : now.level = level := opened.level_acts actions
  have hreachable : now.Reachable := (hg.perform (.start level)).acts actions
  refine ⟨(opened.cycle_acts actions).trans (Nat.zero_add _), henergy, henergy ▸ le_max_left .., ?_,
    playing_acts hnonneg (iff_of_true rfl hmax) actions, fun hw => rolls_acts hw opened,
    fun i => ⟨?_, ?_, ?_, ?_⟩⟩
  · rw [henergy]
    exact max_le hmax.le (sub_le_self _ (energies_nonneg paid))
  · rw [hreachable.rejects_iff, hlevel]
  · rw [hreachable.accepts_iff, hlevel]
  · exact act_of_rejects
  · exact now.misuse?_of_wellTyped

/-- A game with little energy, whose first roll is too high. -/
def risky : Game Rat :=
  make 8 { ahead := [9 / 10, 1 / 2] }

def lacking : Instruction :=
  { opcode := .add, operand1 := some (.register "R1"), operand2 := some (.register "R9"), destination := .given "R3" }

/-- Two accepted actions and between them a rejected one. -/
def plays : List Instruction :=
  [{ opcode := .load, operand1 := some (.literal 5), destination := .given "R1" }, lacking,
    { opcode := .mov, operand1 := some (.literal 1), destination := .given "R2" }]

/-- The first action pays for its roll, the second one for the register in use. -/
theorem accounts_balance_risky :
    let opened := risky.start 3
    let now := opened.acts plays
    risky.Reachable ∧ 0 < risky.maxEnergy ∧
    opened.postings plays = [⟨.load, 0, some (9 / 10)⟩, ⟨.mov, 1, some (1 / 2)⟩] ∧
    now.cycle = 6 ∧ now.energy = 5 / 2 ∧ now.playing = true ∧ now.rolls.taken = 2 ∧
    now.rejects lacking = true ∧ now.act lacking = now := by
  intro opened now
  have hg : risky.Reachable := .make 8 _
  have hmax : 0 < risky.maxEnergy := by decide +kernel
  obtain ⟨hcycle, henergy, -, -, hplaying, hrolls, hact⟩ := accounts_balance hg hmax 3 plays
  have hpaid : opened.postings plays = [⟨.load, 0, some (9 / 10)⟩, ⟨.mov, 1, some (1 / 2)⟩] := by
    decide +kernel
  rw [hpaid] at hcycle henergy hrolls
  have hleft : now.energy = 5 / 2 := henergy.trans (by decide +kernel)
  obtain ⟨-, htaken⟩ := hrolls (by decide)
  obtain ⟨hrejects, -, hsame, hfine⟩ := hact lacking
  have hrejected : now.rejects lacking = true :=
    hrejects.2 ⟨hfine (by decide), rfl, by decide, "R9", .inr (.inl rfl), by decide⟩
  refine ⟨hg, hmax, hpaid, hcycle.trans (by decide +kernel), hleft, hplaying.2 ?_, ?_, hrejected, hsame hrejected⟩
  · rw [show ((risky.start 3).acts plays).energy = 5 / 2 from hleft]
    decide +kernel
  · rw [show now.rolls = _ from htaken]
    rfl

end PhaseMachine.Game
