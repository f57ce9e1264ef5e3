/-
One level of the cache: a fixed row of lines, counters of hits and misses, and the mark of the
access that touched the level last, for display.
-/

namespace PhaseMachine.Cache

/-- The levels in the order in which they are searched. -/
inductive Tier where
  | l1 | l2 | l3
deriving DecidableEq, Repr

namespace Tier

def all : List Tier :=
  [l1, l2, l3]

def name : Tier → String
  | l1 => "L1"
  | l2 => "L2"
  | l3 => "L3"

def ofName? (s : String) : Option Tier :=
  all.find? fun t => t.name == s

end Tier

/-- A line: a copy of the value at an address, with the cycle of the latest access. A dirty line was
written since it came in. -/
structure Line where
  address : Int := 0
  value : Int := 0
  valid : Bool := false
  dirty : Bool := false
  lastAccessed : Int := 0
  /-- Whether the address came in as a truth value, and is shown as one. -/
  asFlag : Bool := false
deriving DecidableEq, Repr, Inhabited

/-- The access that a level shows: its address, and whether it hit. -/
structure Mark where
  address : Int
  hit : Bool
  /-- Whether the address was a truth value, and is shown as one. -/
  asFlag : Bool := false
deriving DecidableEq, Repr

structure Level where
  lines : List Line
  hits : Nat := 0
  misses : Nat := 0
  mark : Option Mark := none
deriving DecidableEq, Repr

namespace Level

/-- A level of empty lines. -/
def blank (size : Nat) : Level :=
  { lines := List.replicate size {} }

def size (l : Level) : Nat :=
  l.lines.length

/-- The place of the first valid line for an address. -/
def slot? (l : Level) (address : Int) : Option Nat :=
  l.lines.findIdx? fun line => line.valid && line.address == address

/-- The place of the line that makes way for a new one: the first empty line, or else the first of
those whose latest access is longest ago. -/
def victim (l : Level) : Nat :=
  match l.lines.findIdx? fun line => !line.valid with
  | some i => i
  | none => l.lines.findIdx fun line => l.lines.all fun other => line.lastAccessed ≤ other.lastAccessed

def line (l : Level) (i : Nat) : Line :=
  l.lines.getD i {}

def setLine (l : Level) (i : Nat) (line : Line) : Level :=
  { l with lines := l.lines.set i line }

def clearMark (l : Level) : Level :=
  { l with mark := none }

/-- Empty lines and zero counters. -/
def reset (l : Level) : Level :=
  blank l.size

/-- Whether no two valid lines are for one address. -/
def distinct (l : Level) : Bool :=
  ((l.lines.filter (·.valid)).map (·.address)).Nodup

def statistics (t : Tier) (l : Level) : String :=
  s!"{t.name}: hits={l.hits} misses={l.misses}"

end Level

end PhaseMachine.Cache
