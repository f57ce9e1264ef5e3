/-
Calls on a cache from outside. A request reads or writes an address in a cycle; between requests marks
may be cleared and the cache may be reset, which makes it as it was new. A request that finds a line
changes that one slot; one that finds none brings a fresh line in.
-/
import PhaseMachine.Proofs.Cache.Access
import PhaseMachine.Storage.Memory

namespace PhaseMachine.Cache

/-! ## Requests -/

/-- What a request is for. A read takes the value of a line that is not there from a memory. -/
inductive Purpose where
  | read (memory : Memory)
  | write (value : Int)

structure Request where
  address : Int
  cycle : Int
  purpose : Purpose
  /-- Whether the address is a truth value, and is shown as one. -/
  asFlag : Bool := false

namespace Request

def writes (r : Request) : Bool :=
  match r.purpose with
  | .read _ => false
  | .write _ => true

/-- The line that comes in if there is none for the address. -/
def fresh (r : Request) : Line :=
  match r.purpose with
  | .read memory =>
    { address := r.address, value := memory.peek r.address, valid := true, dirty := false
      lastAccessed := r.cycle, asFlag := r.asFlag }
  | .write value =>
    { address := r.address, value, valid := true, dirty := true
      lastAccessed := r.cycle, asFlag := r.asFlag }

/-- What becomes of a line that is there for the address. -/
def touched (r : Request) (line : Line) : Line :=
  match r.purpose with
  | .read _ => { line with lastAccessed := r.cycle }
  | .write value => { line with value, dirty := true, lastAccessed := r.cycle }

variable (r : Request) (line : Line)

@[simp]
theorem valid_fresh : r.fresh.valid = true := by
  unfold fresh
  split <;> rfl

@[simp]
theorem address_fresh : r.fresh.address = r.address := by
  unfold fresh
  split <;> rfl

@[simp]
theorem lastAccessed_fresh : r.fresh.lastAccessed = r.cycle := by
  unfold fresh
  split <;> rfl

@[simp]
theorem dirty_fresh : r.fresh.dirty = r.writes := by
  unfold fresh writes
  split <;> rfl

@[simp]
theorem valid_touched : (r.touched line).valid = line.valid := by
  unfold touched
  split <;> rfl

@[simp]
theorem address_touched : (r.touched line).address = line.address := by
  unfold touched
  split <;> rfl

@[simp]
theorem lastAccessed_touched : (r.touched line).lastAccessed = r.cycle := by
  unfold touched
  split <;> rfl

@[simp]
theorem dirty_touched : (r.touched line).dirty = (r.writes || line.dirty) := by
  unfold touched writes
  split <;> simp

end Request

namespace Hierarchy

/-- The cache after a request, and what the request found. -/
def serve (h : Hierarchy) (r : Request) : Hierarchy × Access :=
  match r.purpose with
  | .read memory => h.check r.address (memory.peek r.address) r.cycle r.asFlag
  | .write value => h.update r.address value r.cycle r.asFlag

variable {h : Hierarchy} {r : Request}

theorem serve_eq (h : Hierarchy) (r : Request) : h.serve r = h.access r.touched r.fresh := by
  obtain ⟨address, cycle, purpose, asFlag⟩ := r
  cases purpose <;> rfl

/-- A request that finds a line changes the slot of it and counts a hit for its level. -/
theorem serve_of_some {t : Tier} {i : Nat} (hl : h.locate? r.address = some (t, i)) :
    (h.serve r).2.hit = true ∧
      ∀ u, ((h.serve r).1.level u).lines =
          (if u = t then (h.level t).lines.set i (r.touched ((h.level t).line i)) else (h.level u).lines) ∧
        ((h.serve r).1.level u).hits = (if u = t then (h.level t).hits + 1 else (h.level u).hits) ∧
        ((h.serve r).1.level u).misses = (h.level u).misses := by
  have hl' : h.locate? r.fresh.address = some (t, i) := by rw [r.address_fresh]; exact hl
  rw [serve_eq, access_of_some hl']
  refine ⟨rfl, fun u => ?_⟩
  have hline : ({ r.touched ((h.level t).line i) with lastAccessed := r.fresh.lastAccessed } : Line) =
      r.touched ((h.level t).line i) := by
    rw [r.lastAccessed_fresh, ← r.lastAccessed_touched ((h.level t).line i)]
  cases t <;> cases u <;> first
    | exact ⟨congrArg _ hline, rfl, rfl⟩
    | exact ⟨rfl, rfl, rfl⟩

/-- So in that level one valid line is exchanged for the touched one, and the others stay. -/
theorem valid_of_some {t : Tier} {i : Nat} (hl : h.locate? r.address = some (t, i)) :
    (∃ rest, (h.level t).valid.Perm ((h.level t).line i :: rest) ∧
      ((h.serve r).1.level t).valid.Perm (r.touched ((h.level t).line i) :: rest)) ∧
    ∀ u, u ≠ t → ((h.serve r).1.level u).valid = (h.level u).valid := by
  obtain ⟨hi, hv, -⟩ := locate?_some hl
  obtain ⟨-, hlevels⟩ := serve_of_some hl
  constructor
  · obtain ⟨rest, h1, h2⟩ := Level.valid_split hi hv
    refine ⟨rest, h1, ?_⟩
    have hlines := (hlevels t).1
    rw [if_pos rfl] at hlines
    rw [show ((h.serve r).1.level t).valid = ((h.level t).setLine i _).valid from congrArg (List.filter _) hlines]
    exact h2 _ ((r.valid_touched _).trans hv)
  · intro u hu
    have hlines := (hlevels u).1
    rw [if_neg hu] at hlines
    exact congrArg (List.filter _) hlines

/-- A request that finds no line brings the fresh one in. -/
theorem serve_of_none (hl : h.locate? r.address = none) :
    (h.serve r).2.hit = false ∧ (h.serve r).1 = (h.missed r.fresh).allocate r.fresh := by
  have hl' : h.locate? r.fresh.address = none := by rw [r.address_fresh]; exact hl
  rw [serve_eq, access_of_none hl']
  exact ⟨rfl, rfl⟩

theorem sameShape_serve (h : Hierarchy) (r : Request) : h.SameShape (h.serve r).1 := by
  rw [serve_eq]
  exact sameShape_access ..

/-! ## Calls -/

inductive Call where
  | serve (r : Request)
  | clearMarks
  | reset

def call (h : Hierarchy) : Call → Hierarchy
  | .serve r => (h.serve r).1
  | .clearMarks => h.clearMarks
  | .reset => h.reset

def afterCalls (h : Hierarchy) (calls : List Call) : Hierarchy :=
  calls.foldl call h

theorem sameShape_reset (h : Hierarchy) : h.SameShape h.reset :=
  ⟨fun t => by cases t <;> exact Level.size_blank _, rfl⟩

theorem sameShape_call (h : Hierarchy) (c : Call) : h.SameShape (h.call c) := by
  cases c with
  | serve r => exact sameShape_serve h r
  | clearMarks => exact sameShape_clearMarks h
  | reset => exact sameShape_reset h

theorem sameShape_afterCalls (h : Hierarchy) (calls : List Call) : h.SameShape (h.afterCalls calls) := by
  induction calls generalizing h with
  | nil => exact .refl h
  | cons c calls ih => exact (sameShape_call h c).trans (ih (h.call c))

/-- A reset makes a cache as it was new, whatever was done to it. -/
theorem reset_afterCalls {sizes : List Int} {demoteVictims : Bool} {made : Hierarchy}
    (hm : ofSizes sizes demoteVictims = .ok made) (calls : List Call) : (made.afterCalls calls).reset = made := by
  obtain ⟨a, b, c, -, -, -, -, rfl⟩ := ofSizes_ok hm
  have hs := sameShape_afterCalls { l1 := .blank a, l2 := .blank b, l3 := .blank c, demoteVictims } calls
  have h1 := (hs.size .l1).trans (Level.size_blank a)
  have h2 := (hs.size .l2).trans (Level.size_blank b)
  have h3 := (hs.size .l3).trans (Level.size_blank c)
  have hd := hs.demotes
  generalize afterCalls _ calls = h at h1 h2 h3 hd
  have h1 : h.l1.reset = .blank a := congrArg Level.blank h1
  have h2 : h.l2.reset = .blank b := congrArg Level.blank h2
  have h3 : h.l3.reset = .blank c := congrArg Level.blank h3
  unfold reset
  rw [h1, h2, h3, hd]

/-- A cache as it was made for sizes, or reset after any calls. -/
def IsClear (sizes : List Int) (demoteVictims : Bool) (h : Hierarchy) : Prop :=
  ∃ made, ofSizes sizes demoteVictims = .ok made ∧ (h = made ∨ ∃ calls, h = (made.afterCalls calls).reset)

theorem isClear_iff {sizes : List Int} {demoteVictims : Bool} :
    IsClear sizes demoteVictims h ↔ ofSizes sizes demoteVictims = .ok h := by
  constructor
  · rintro ⟨made, hm, rfl | ⟨calls, rfl⟩⟩
    · exact hm
    · rw [reset_afterCalls hm]
      exact hm
  · exact fun hm => ⟨h, hm, .inl rfl⟩

end Hierarchy

end PhaseMachine.Cache
