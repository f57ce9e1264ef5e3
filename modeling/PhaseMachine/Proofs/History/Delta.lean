/-
The changes that records keep, read as a log. Replaying a log writes the new values one after the
other; a log is exact if each old value is the one that the replay finds there. `Leads` puts both
together: an exact log from some values to others. Logs that follow one another join.
-/
import PhaseMachine.History.Record
import PhaseMachine.Execution.Effect
import PhaseMachine.Proofs.Storage.Values

namespace PhaseMachine

/-- A change of one value. -/
inductive Change where
  | register (c : RegisterChange)
  | memory (c : MemoryChange)
deriving DecidableEq, Repr

def Record.changes (r : Record) : List Change :=
  r.registerChanges.map .register ++ r.memoryChanges.map .memory

def Effect.changes (e : Effect) : List Change :=
  e.registerChanges.map .register ++ e.memoryChanges.map .memory

namespace Change

/-- The values with the new one in its place. -/
def apply (v : Values) : Change → Values
  | register c => v.setRegister c.name c.new
  | memory c => v.setCell c.address c.new

/-- The old value is the one that is there. -/
def Fits (v : Values) : Change → Prop
  | register c => v.register? c.name = some c.old
  | memory c => v.cell? c.address = some c.old

/-- The values after changes in order. -/
def replay (v : Values) (log : List Change) : Values :=
  log.foldl apply v

/-- Each old value in the log is the one that is there when its turn comes. -/
def Exact (v : Values) : List Change → Prop
  | [] => True
  | c :: log => c.Fits v ∧ Exact (c.apply v) log

/-- An exact log of the changes from some values to others. -/
structure Leads (v : Values) (log : List Change) (w : Values) : Prop where
  fits : Exact v log
  replay_eq : replay v log = w

variable {u v w : Values} {log rest : List Change}

theorem replay_append (v : Values) (log rest : List Change) :
    replay v (log ++ rest) = replay (replay v log) rest :=
  List.foldl_append

theorem exact_append : Exact v (log ++ rest) ↔ Exact v log ∧ Exact (replay v log) rest := by
  induction log generalizing v with
  | nil => exact ⟨fun h => ⟨trivial, h⟩, fun h => h.2⟩
  | cons c log ih =>
    show c.Fits v ∧ Exact (c.apply v) (log ++ rest) ↔ _
    rw [ih, ← and_assoc]
    rfl

/-- Every change of an exact log fits the values that the changes before it lead to. -/
theorem Exact.fits_at (h : Exact v log) {before later : List Change} {c : Change}
    (hc : log = before ++ c :: later) : c.Fits (replay v before) := by
  rw [hc, exact_append] at h
  exact h.2.1

theorem Leads.refl (v : Values) : Leads v [] v :=
  ⟨trivial, rfl⟩

theorem Leads.append (h1 : Leads u log v) (h2 : Leads v rest w) : Leads u (log ++ rest) w := by
  refine ⟨exact_append.2 ⟨h1.fits, ?_⟩, ?_⟩
  · rw [h1.replay_eq]
    exact h2.fits
  · rw [replay_append, h1.replay_eq, h2.replay_eq]

theorem leads_register {name : String} {old new : Int} (h : v.register? name = some old) :
    Leads v [.register ⟨name, old, new⟩] (v.setRegister name new) :=
  ⟨⟨h, trivial⟩, rfl⟩

theorem leads_memory {address old new : Int} (h : v.cell? address = some old) :
    Leads v [.memory ⟨address, old, new⟩] (v.setCell address new) :=
  ⟨⟨h, trivial⟩, rfl⟩

end Change

end PhaseMachine
