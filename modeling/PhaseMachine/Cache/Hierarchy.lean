/-
The cache: three levels that are searched in order. An access that no level can serve brings a line
into the first level, in place of the line accessed longest ago there. If victims are demoted, that
line moves down a level, and so on; what the last level gives up is lost. Otherwise the victim is
overwritten.
-/
import PhaseMachine.Cache.Level

namespace PhaseMachine.Cache

structure Hierarchy where
  l1 : Level
  l2 : Level
  l3 : Level
  demoteVictims : Bool := false
deriving DecidableEq, Repr

/-- Why there is no cache of the given sizes. -/
inductive SizeRefusal where
  | count (given : Nat)
  | notPositive
deriving DecidableEq, Repr

def SizeRefusal.message : SizeRefusal → String
  | count given => s!"Expected {Tier.all.length} cache sizes, got {given}."
  | notPositive => "Cache size must be a positive integer."

/-- What an access found: the level that served it or took it in, whether it hit, the value of the
line afterwards, and the line that made way. -/
structure Access where
  tier : Tier
  hit : Bool
  value : Int
  evicted : Option Line
deriving DecidableEq, Repr

namespace Hierarchy

def defaultSizes : List Int :=
  [8, 16, 32]

/-- An empty cache, if there is a positive size for each level. -/
def ofSizes (sizes : List Int) (demoteVictims : Bool) : Except SizeRefusal Hierarchy :=
  match sizes with
  | [a, b, c] =>
    if 0 < a ∧ 0 < b ∧ 0 < c then
      .ok { l1 := .blank a.toNat, l2 := .blank b.toNat, l3 := .blank c.toNat, demoteVictims }
    else .error .notPositive
  | _ => .error (.count sizes.length)

def level (h : Hierarchy) : Tier → Level
  | .l1 => h.l1
  | .l2 => h.l2
  | .l3 => h.l3

def setLevel (h : Hierarchy) (t : Tier) (l : Level) : Hierarchy :=
  match t with
  | .l1 => { h with l1 := l }
  | .l2 => { h with l2 := l }
  | .l3 => { h with l3 := l }

/-- Only the level of the tier changes. -/
theorem level_setLevel (h : Hierarchy) (t u : Tier) (l : Level) :
    (h.setLevel t l).level u = if t = u then l else h.level u := by
  cases t <;> cases u <;> rfl

def levels (h : Hierarchy) : List Level :=
  Tier.all.map h.level

def clearMarks (h : Hierarchy) : Hierarchy :=
  { h with l1 := h.l1.clearMark, l2 := h.l2.clearMark, l3 := h.l3.clearMark }

def reset (h : Hierarchy) : Hierarchy :=
  { h with l1 := h.l1.reset, l2 := h.l2.reset, l3 := h.l3.reset }

/-- Whether no level holds two valid lines for one address. -/
def distinct (h : Hierarchy) : Bool :=
  h.levels.all Level.distinct

def statistics (h : Hierarchy) : List String :=
  Tier.all.map fun t => (h.level t).statistics t

/-! ## Access -/

/-- Where a line for an address is found first. -/
def locate? (h : Hierarchy) (address : Int) : Option (Tier × Nat) :=
  Tier.all.findSome? fun t => ((h.level t).slot? address).map fun i => (t, i)

/-- A line put into the third level. The line it replaces is lost. -/
def demoteToL3 (h : Hierarchy) (line : Line) : Hierarchy :=
  { h with l3 := h.l3.setLine h.l3.victim line }

/-- A line put into the second level. The line it replaces moves down. -/
def demoteToL2 (h : Hierarchy) (line : Line) : Hierarchy :=
  let i := h.l2.victim
  let replaced := h.l2.line i
  let below := if replaced.valid then h.demoteToL3 replaced else h
  { below with l2 := h.l2.setLine i line }

/-- The valid line of the first level that makes way for the next new one. -/
def victim? (h : Hierarchy) : Option Line :=
  let replaced := h.l1.line h.l1.victim
  if replaced.valid then some replaced else none

/-- A new line put into the first level. -/
def allocate (h : Hierarchy) (line : Line) : Hierarchy :=
  let below := match h.victim? with
    | some replaced => if h.demoteVictims then h.demoteToL2 replaced else h
    | none => h
  { below with l1 := h.l1.setLine h.l1.victim line }

/-- One access, to the address and in the cycle of a fresh line. A line that is found for the address
is changed by `touch` and stamped with the cycle; else the fresh line is taken in. -/
def access (h : Hierarchy) (touch : Line → Line) (fresh : Line) : Hierarchy × Access :=
  -- the access becomes the only mark
  let h := h.clearMarks
  let mark (hit : Bool) : Mark := { address := fresh.address, hit, asFlag := fresh.asFlag }
  match h.locate? fresh.address with
  | some (t, i) =>
    let l := h.level t
    -- a line that is found keeps its own address
    let line := { touch (l.line i) with lastAccessed := fresh.lastAccessed }
    let l := { l.setLine i line with hits := l.hits + 1, mark := some (mark true) }
    (h.setLevel t l, ⟨t, true, line.value, none⟩)
  | none =>
    let l1 := { h.l1 with misses := h.l1.misses + 1, mark := some (mark false) }
    (allocate { h with l1 } fresh, ⟨.l1, false, fresh.value, h.victim?⟩)

/-- A read of the address whose memory cell holds `stored`. The address may be shown as a truth
value. -/
def check (h : Hierarchy) (address stored cycle : Int) (asFlag : Bool := false) :
    Hierarchy × Access :=
  h.access (fun line => line)
    { address, value := stored, valid := true, dirty := false, lastAccessed := cycle, asFlag }

/-- A write of a value to the address, which may be shown as a truth value. -/
def update (h : Hierarchy) (address value cycle : Int) (asFlag : Bool := false) :
    Hierarchy × Access :=
  h.access (fun line => { line with value, dirty := true })
    { address, value, valid := true, dirty := true, lastAccessed := cycle, asFlag }

end Hierarchy

end PhaseMachine.Cache
