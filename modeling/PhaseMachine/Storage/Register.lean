/-
The register bank: registers with distinct names, in a fixed order. A register is active from the
moment it takes part in an instruction until the instruction is over; the control registers stay
active.
-/

namespace PhaseMachine

structure Register where
  name : String
  value : Int := 0
  active : Bool := false
  description : String := ""
deriving DecidableEq, Repr

/-- Registers in order, no two of one name. -/
structure RegisterBank where
  registers : List Register
  nodup : (registers.map (·.name)).Nodup

namespace RegisterBank

structure NotFound where
  name : String
deriving DecidableEq, Repr

def NotFound.message (e : NotFound) : String :=
  s!"Register '{e.name}' not found."

/-- The registers that no program can do without. -/
def controlNames : List String :=
  ["PC", "IR"]

def defaultSpecs : List (String × String) :=
  [
    ("R1", "General purpose register 1"),
    ("R2", "General purpose register 2"),
    ("R3", "General purpose register 3 (accumulator)"),
    ("PC", "Program counter"),
    ("IR", "Instruction register")
  ]

/-! ## Making a bank -/

/-- The first name that stands among the names before it. -/
def repeated? (seen : List String) : List String → Option String
  | [] => none
  | n :: rest => if n ∈ seen then some n else repeated? (n :: seen) rest

/-- The bank of registers with these names and descriptions, all zero, or the first name that
comes twice. -/
def ofSpecs (specs : List (String × String)) : Except String RegisterBank :=
  let registers := specs.map fun s => ({ name := s.1, description := s.2 } : Register)
  if h : (registers.map (·.name)).Nodup then .ok ⟨registers, h⟩
  else .error ((repeated? [] (specs.map (·.1))).getD "")

/-! ## Looking up -/

def names (b : RegisterBank) : List String :=
  b.registers.map (·.name)

def size (b : RegisterBank) : Nat :=
  b.registers.length

def contains (b : RegisterBank) (name : String) : Bool :=
  b.names.contains name

def find? (b : RegisterBank) (name : String) : Option Register :=
  b.registers.find? (·.name == name)

def value? (b : RegisterBank) (name : String) : Option Int :=
  (b.find? name).map (·.value)

def get (b : RegisterBank) (name : String) : Except NotFound Register :=
  match b.find? name with
  | some r => .ok r
  | none => .error ⟨name⟩

def toMap (b : RegisterBank) : List (String × Int) :=
  b.registers.map fun r => (r.name, r.value)

/-! ## Changing registers -/

/-- The bank with a change to every register that hname its name. -/
def mapRegisters (b : RegisterBank) (f : Register → Register) (hname : ∀ r, (f r).name = r.name) :
    RegisterBank :=
  ⟨b.registers.map f, by
    rw [List.map_map, show ((·.name) ∘ f : Register → String) = (·.name) from funext hname]
    exact b.nodup⟩

/-- The bank with other contents in the register of a name. -/
def modify (b : RegisterBank) (name : String) (f : Register → Register)
    (hname : ∀ r, (f r).name = r.name) : RegisterBank :=
  b.mapRegisters (fun r => if r.name = name then f r else r) fun r => by
    split
    · exact hname r
    · rfl

/-- Sets a register's value and nothing else. -/
def setValue (b : RegisterBank) (name : String) (value : Int) : RegisterBank :=
  b.modify name (fun r => { r with value }) fun _ => rfl

def setActive (b : RegisterBank) (name : String) (active : Bool) : RegisterBank :=
  b.modify name (fun r => { r with active }) fun _ => rfl

/-- Writing sets the value and makes the register active. -/
def write (b : RegisterBank) (name : String) (value : Int) : RegisterBank :=
  b.modify name (fun r => { r with value, active := true }) fun _ => rfl

/-- Makes every register inactive except the control registers. -/
def deactivateGeneral (b : RegisterBank) : RegisterBank :=
  b.mapRegisters
    (fun r => if controlNames.contains r.name then r else { r with active := false })
    fun r => by split <;> rfl

def reset (b : RegisterBank) : RegisterBank :=
  b.mapRegisters (fun r => { r with value := 0, active := false }) fun _ => rfl

/-! ## Looking up after a change -/

@[simp]
theorem names_mapRegisters (b : RegisterBank) (f : Register → Register)
    (hname : ∀ r, (f r).name = r.name) : (b.mapRegisters f hname).names = b.names := by
  unfold names mapRegisters
  rw [List.map_map]
  exact List.map_congr_left fun r _ => hname r

@[simp]
theorem names_modify (b : RegisterBank) (name : String) (f : Register → Register)
    (hname : ∀ r, (f r).name = r.name) : (b.modify name f hname).names = b.names :=
  names_mapRegisters ..

theorem find?_mapRegisters (b : RegisterBank) (f : Register → Register)
    (hname : ∀ r, (f r).name = r.name) (name : String) :
    (b.mapRegisters f hname).find? name = (b.find? name).map f := by
  have hcomp : ((fun r : Register => r.name == name) ∘ f) = fun r => r.name == name :=
    funext fun r => by rw [Function.comp_apply, hname r]
  unfold find? mapRegisters
  rw [List.find?_map, hcomp]

theorem name_of_find? {b : RegisterBank} {name : String} {r : Register} (h : b.find? name = some r) :
    r.name = name := by
  have hname := List.find?_some h
  exact eq_of_beq hname

theorem find?_modify (b : RegisterBank) (name other : String) (f : Register → Register)
    (hname : ∀ r, (f r).name = r.name) :
    (b.modify name f hname).find? other =
      if name = other then (b.find? other).map f else b.find? other := by
  unfold modify
  rw [find?_mapRegisters]
  cases hr : b.find? other with
  | none => simp
  | some r =>
    have hother := name_of_find? hr
    by_cases heq : name = other
    · subst heq
      simp [hother]
    · simp [hother, heq, Ne.symm heq]

/-- A bank has a register of every name of it. -/
theorem isSome_find? (b : RegisterBank) (name : String) : (b.find? name).isSome ↔ name ∈ b.names := by
  simp [find?, names]

end RegisterBank

end PhaseMachine
