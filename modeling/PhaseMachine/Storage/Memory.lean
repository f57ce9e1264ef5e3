/-
Memory: a fixed, positive number of cells. A cell is used once it has been read or written, until
the flags are cleared, and active from a write until the instruction is over. With the registers and the
cache between them it makes up the storage of the machine.
-/
import PhaseMachine.Cache.Hierarchy
import PhaseMachine.Storage.Register
import PhaseMachine.Value.Text

namespace PhaseMachine

structure Cell where
  value : Int := 0
  active : Bool := false
  used : Bool := false
deriving DecidableEq, Repr, Inhabited

/-- The cells by address. There is at least one. -/
structure Memory where
  cells : Array Cell
  nonempty : 0 < cells.size
  /-- Whether the size came in as a truth value, and is shown as one. -/
  sizeAsFlag : Bool := false

namespace Memory

/-- An address that is not in a memory of the size. Either may have come as a truth value, and is
shown as one. -/
structure OutOfBounds where
  address : Int
  size : Nat
  addressAsFlag : Bool := false
  sizeAsFlag : Bool := false
deriving DecidableEq, Repr

def OutOfBounds.message (e : OutOfBounds) : String :=
  let address := (Value.counted e.address e.addressAsFlag).text
  let size := (Value.counted e.size e.sizeAsFlag).text
  s!"Address {address} out of bounds for memory of size {size}."

def defaultSize : Int := 0x400

/-- A memory of zeros, if the size is positive. -/
def ofSize? (size : Int) (sizeAsFlag : Bool := false) : Option Memory :=
  if h : 0 < size then
    some ⟨Array.replicate size.toNat {}, by rw [Array.size_replicate]; omega, sizeAsFlag⟩
  else none

def size (m : Memory) : Nat :=
  m.cells.size

/-! ## Looking up -/

def find? (m : Memory) (address : Int) : Option Cell :=
  if 0 ≤ address then m.cells[address.toNat]? else none

/-- The value at an address, 0 outside memory. No flag changes. -/
def peek (m : Memory) (address : Int) : Int :=
  ((m.find? address).map (·.value)).getD 0

def usedAddresses (m : Memory) : List Nat :=
  (List.range m.size).filter fun a => (m.find? a).any (·.used)

/-! ## Changing cells -/

/-- The memory with other contents in the cell at an address. -/
def modify (m : Memory) (address : Int) (f : Cell → Cell) : Memory :=
  if 0 ≤ address then
    { m with
      cells := m.cells.modify address.toNat f
      nonempty := by rw [Array.size_modify]; exact m.nonempty }
  else m

def mapCells (m : Memory) (f : Cell → Cell) : Memory :=
  { m with cells := m.cells.map f, nonempty := by rw [Array.size_map]; exact m.nonempty }

/-- Sets a cell's value and nothing else. -/
def setValue (m : Memory) (address value : Int) : Memory :=
  m.modify address fun c => { c with value }

/-- Marks a cell that has been read. -/
def markRead (m : Memory) (address : Int) : Memory :=
  m.modify address fun c => { c with used := true }

/-- Sets a cell's value and marks it as written. -/
def store (m : Memory) (address value : Int) : Memory :=
  m.modify address fun _ => { value, active := true, used := true }

def outOfBounds (m : Memory) (address : Int) (asFlag : Bool) : OutOfBounds :=
  ⟨address, m.size, asFlag, m.sizeAsFlag⟩

/-- Reading answers the value and marks the cell. -/
def read (m : Memory) (address : Int) (asFlag : Bool := false) :
    Except OutOfBounds (Int × Memory) :=
  match m.find? address with
  | some c => .ok (c.value, m.markRead address)
  | none => .error (m.outOfBounds address asFlag)

/-- Writing answers the value from before. -/
def write (m : Memory) (address value : Int) (asFlag : Bool := false) :
    Except OutOfBounds (Int × Memory) :=
  match m.find? address with
  | some c => .ok (c.value, m.store address value)
  | none => .error (m.outOfBounds address asFlag)

def deactivateAll (m : Memory) : Memory :=
  m.mapCells fun c => { c with active := false }

/-- Clears the flags and keeps the values. -/
def clearFlags (m : Memory) : Memory :=
  m.mapCells fun c => { c with active := false, used := false }

def reset (m : Memory) : Memory :=
  m.mapCells fun _ => {}

/-! ## Looking up after a change -/

theorem find?_modify (m : Memory) (address other : Int) (f : Cell → Cell) :
    (m.modify address f).find? other =
      if address = other then (m.find? other).map f else m.find? other := by
  unfold modify find?
  by_cases ha : 0 ≤ address
  · by_cases ho : 0 ≤ other
    · simp only [ha, ho, if_true]
      by_cases heq : address = other
      · subst heq
        simp [Array.getElem?_modify]
      · have hne : address.toNat ≠ other.toNat := by omega
        simp [Array.getElem?_modify, heq, hne]
    · have hne : address ≠ other := by omega
      simp [ho, hne]
  · by_cases heq : address = other
    · subst heq
      simp [ha]
    · simp [ha, heq]

theorem find?_mapCells (m : Memory) (address : Int) (f : Cell → Cell) :
    (m.mapCells f).find? address = (m.find? address).map f := by
  unfold mapCells find?
  split <;> simp

/-- There is a cell at every address of memory and at no other. -/
theorem isSome_find? (m : Memory) (address : Int) :
    (m.find? address).isSome ↔ 0 ≤ address ∧ address < m.size := by
  unfold find? size
  by_cases ha : 0 ≤ address
  · simp only [ha, if_true, true_and, isSome_getElem?]
    omega
  · simp [ha]

end Memory

structure Storage where
  registers : RegisterBank
  memory : Memory
  cache : Cache.Hierarchy

end PhaseMachine
