/-
Whole games. A game is made with its energy and its rolls; from then on it is started at any level, any
number of times, and acts on any instructions. Whatever is done, it has the same three registers.
-/
import PhaseMachine.Game.Engine

namespace PhaseMachine.Game

/-- What a player can do. -/
inductive Op where
  | start (level : Int)
  | act (i : Instruction)

variable {τ : Type} [Quantity τ]

def perform (g : Game τ) : Op → Game τ
  | .start level => g.start level
  | .act i => g.act i

def after (g : Game τ) (ops : List Op) : Game τ :=
  ops.foldl perform g

/-- A game that comes about: new, or after something was done in one that came about before. -/
inductive Reachable : Game τ → Prop where
  | make (maxEnergy : τ) (rolls : Rolls τ) : Reachable (make maxEnergy rolls)
  | perform {g : Game τ} (h : Reachable g) (op : Op) : Reachable (g.perform op)

theorem Reachable.after {g : Game τ} (h : g.Reachable) (ops : List Op) : (g.after ops).Reachable := by
  induction ops generalizing g with
  | nil => exact h
  | cons op ops ih => exact ih (h.perform op)

theorem names_apply (b : RegisterBank) (i : Instruction) : (apply b i).names = b.names := by
  unfold apply
  split
  · exact RegisterBank.names_modify ..
  · rfl

/-- What an action does to the registers, if it does anything to them. -/
theorem registers_act (g : Game τ) (i : Instruction) :
    (g.act i).registers = g.registers ∨ (g.act i).registers = apply g.registers i := by
  unfold act
  split
  · exact .inl rfl
  · dsimp only
    split
    · exact .inl rfl
    · split
      · exact .inl rfl
      · exact .inr rfl

/-- An action that is accepted and does not fail is applied. -/
theorem registers_act_of_accepted {g : Game τ} {i : Instruction} (hm : g.misuse? i = none)
    (ha : (g.chargeFor i).1.isAccepted = true) : (g.act i).registers = apply g.registers i := by
  have hcharge : chargeMisuse? i g.level = none := by
    unfold misuse? at hm
    exact (Option.or_eq_none_iff.1 hm).1
  unfold act
  rw [hcharge, hm]
  rcases hc : g.chargeFor i with ⟨charge, rolls⟩
  rw [hc] at ha
  cases charge with
  | accepted cycles cost => rfl
  | rejected cycles cost missing => cases ha

theorem Reachable.names {g : Game τ} (h : g.Reachable) : g.registers.names = ["R1", "R2", "R3"] := by
  induction h with
  | make => rfl
  | @perform g _ op ih =>
    cases op with
    | start level =>
      show g.registers.reset.names = _
      unfold RegisterBank.reset
      rw [RegisterBank.names_mapRegisters, ih]
    | act i =>
      show (g.act i).registers.names = _
      rcases g.registers_act i with he | he
      · rw [he, ih]
      · rw [he, names_apply, ih]

end PhaseMachine.Game
