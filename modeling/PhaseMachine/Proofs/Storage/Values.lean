/-
Storage without its display: what the registers hold, by name and in order, and what the cells of
memory hold, by address. Every operation of storage is followed on these values: a write replaces
one of them, and all that is only for display replaces none.
-/
import Mathlib.Tactic
import PhaseMachine.Storage.Memory

namespace PhaseMachine

/-! ## Plain values -/

/-- The values of registers and memory cells. -/
structure Values where
  registers : List (String × Int)
  memory : List Int
deriving DecidableEq, Repr

namespace Values

def register? (v : Values) (name : String) : Option Int :=
  v.registers.lookup name

def cell? (v : Values) (address : Int) : Option Int :=
  if 0 ≤ address then v.memory[address.toNat]? else none

def setRegister (v : Values) (name : String) (value : Int) : Values :=
  { v with registers := v.registers.map fun p => if p.1 = name then (p.1, value) else p }

def setCell (v : Values) (address value : Int) : Values :=
  if 0 ≤ address then { v with memory := v.memory.set address.toNat value } else v

def names (v : Values) : List String :=
  v.registers.map (·.1)

@[simp]
theorem names_setRegister (v : Values) (name : String) (value : Int) :
    (v.setRegister name value).names = v.names := by
  unfold names setRegister
  rw [List.map_map]
  refine List.map_congr_left fun p _ => ?_
  rw [Function.comp_apply]
  split <;> rfl

@[simp]
theorem names_setCell (v : Values) (address value : Int) : (v.setCell address value).names = v.names := by
  unfold setCell
  split <;> rfl

@[simp]
theorem length_setCell (v : Values) (address value : Int) :
    (v.setCell address value).memory.length = v.memory.length := by
  unfold setCell
  split
  · exact List.length_set
  · rfl

@[simp]
theorem memory_setRegister (v : Values) (name : String) (value : Int) :
    (v.setRegister name value).memory = v.memory := rfl

@[simp]
theorem cell?_setRegister (v : Values) (name : String) (value address : Int) :
    (v.setRegister name value).cell? address = v.cell? address := rfl

@[simp]
theorem register?_setCell (v : Values) (address value : Int) (name : String) :
    (v.setCell address value).register? name = v.register? name := by
  unfold setCell
  split <;> rfl

/-- Only the register of the name changes, if there is one. -/
theorem register?_setRegister (v : Values) (name : String) (value : Int) (other : String) :
    (v.setRegister name value).register? other =
      if name = other then (v.register? other).map fun _ => value else v.register? other := by
  unfold setRegister register?
  dsimp only
  induction v.registers with
  | nil => simp
  | cons p rest ih =>
    have hfst : (if p.1 = name then (p.1, value) else p).1 = p.1 := by split <;> rfl
    rw [List.map_cons, List.lookup_cons, List.lookup_cons, ih, hfst]
    cases h : other == p.1 with
    | false => rfl
    | true =>
      rw [eq_of_beq h]
      by_cases hn : p.1 = name
      · simp [hn]
      · simp [hn, Ne.symm hn]

theorem isSome_register? (v : Values) (name : String) : (v.register? name).isSome ↔ name ∈ v.names := by
  unfold register? names
  induction v.registers with
  | nil => simp
  | cons p rest ih =>
    rw [List.lookup_cons, List.map_cons, List.mem_cons, ← ih]
    cases h : name == p.1 with
    | false => simp [ne_of_beq_false h]
    | true => simp [eq_of_beq h]

/-- A register that was set holds the value. -/
theorem register?_setRegister_self {v : Values} {name : String} (hn : name ∈ v.names) (value : Int) :
    (v.setRegister name value).register? name = some value := by
  obtain ⟨old, hold⟩ := Option.isSome_iff_exists.1 ((v.isSome_register? name).2 hn)
  rw [register?_setRegister, if_pos rfl, hold]
  rfl

theorem register?_setRegister_of_ne {name other : String} (hne : name ≠ other) (v : Values) (value : Int) :
    (v.setRegister name value).register? other = v.register? other := by
  rw [register?_setRegister, if_neg hne]

theorem isSome_cell? (v : Values) (address : Int) :
    (v.cell? address).isSome ↔ 0 ≤ address ∧ address < v.memory.length := by
  unfold cell?
  split
  · rw [isSome_getElem?]
    omega
  · simp only [Option.isSome_none, Bool.false_eq_true, false_iff]
    omega

/-- Only the cell at the address changes, if there is one. -/
theorem cell?_setCell (v : Values) (address value other : Int) :
    (v.setCell address value).cell? other =
      if address = other then (v.cell? other).map fun _ => value else v.cell? other := by
  unfold setCell cell?
  by_cases ha : 0 ≤ address
  · by_cases ho : 0 ≤ other
    · rw [if_pos ha, if_pos ho, if_pos ho]
      by_cases heq : address = other
      · subst heq
        rw [if_pos rfl, List.getElem?_set, if_pos rfl]
        split
        · next hi => rw [List.getElem?_eq_getElem hi]; rfl
        · next hi => rw [List.getElem?_eq_none (by omega)]; rfl
      · have : address.toNat ≠ other.toNat := by omega
        rw [if_neg heq, List.getElem?_set_ne this]
    · have : address ≠ other := by omega
      rw [if_pos ha, if_neg ho, if_neg ho, if_neg this]
  · by_cases heq : address = other
    · subst heq
      rw [if_neg ha, if_neg ha, if_pos rfl, Option.map_none]
    · rw [if_neg ha, if_neg heq]

end Values

/-! ## Registers -/

namespace RegisterBank

theorem names_toMap (b : RegisterBank) : b.toMap.map (·.1) = b.names := by
  unfold toMap names
  rw [List.map_map]
  rfl

/-- Looking a name up among the values finds the value of its register. -/
theorem lookup_toMap (b : RegisterBank) (name : String) : b.toMap.lookup name = b.value? name := by
  unfold toMap value? find?
  induction b.registers with
  | nil => rfl
  | cons r rest ih =>
    by_cases h : r.name = name
    · subst h
      simp
    · have h' : (name == r.name) = false := beq_false_of_ne (Ne.symm h)
      rw [List.map_cons, List.lookup_cons, h', List.find?_cons_of_neg (by simpa using h)]
      exact ih

theorem toMap_mapRegisters {b : RegisterBank} {f : Register → Register} (hname : ∀ r, (f r).name = r.name)
    (hf : ∀ r, (f r).value = r.value) : (b.mapRegisters f hname).toMap = b.toMap := by
  unfold toMap mapRegisters
  rw [List.map_map]
  refine List.map_congr_left fun r _ => ?_
  rw [Function.comp_apply, hname, hf]

@[simp]
theorem toMap_setActive (b : RegisterBank) (name : String) (active : Bool) :
    (b.setActive name active).toMap = b.toMap := by
  unfold setActive modify
  refine toMap_mapRegisters _ fun r => ?_
  split <;> rfl

@[simp]
theorem toMap_deactivateGeneral (b : RegisterBank) : b.deactivateGeneral.toMap = b.toMap := by
  unfold deactivateGeneral
  refine toMap_mapRegisters _ fun r => ?_
  split <;> rfl

theorem toMap_write (b : RegisterBank) (name : String) (value : Int) :
    (b.write name value).toMap = b.toMap.map fun p => if p.1 = name then (p.1, value) else p := by
  unfold toMap write modify mapRegisters
  rw [List.map_map, List.map_map]
  refine List.map_congr_left fun r _ => ?_
  rw [Function.comp_apply, Function.comp_apply]
  split <;> rfl

end RegisterBank

/-! ## Memory -/

namespace Memory

def values (m : Memory) : List Int :=
  (m.cells.map (·.value)).toList

def value? (m : Memory) (address : Int) : Option Int :=
  (m.find? address).map (·.value)

theorem peek_eq (m : Memory) (address : Int) : m.peek address = (m.value? address).getD 0 := rfl

theorem getElem?_values (m : Memory) (i : Nat) : m.values[i]? = (m.cells[i]?).map (·.value) := by
  unfold values
  rw [Array.getElem?_toList, Array.getElem?_map]

theorem length_values (m : Memory) : m.values.length = m.size := by
  unfold values size
  rw [Array.length_toList, Array.size_map]

/-- A change of cells that leaves their values alone. -/
theorem values_mapCells {m : Memory} {f : Cell → Cell} (hf : ∀ c, (f c).value = c.value) :
    (m.mapCells f).values = m.values := by
  refine List.ext_getElem? fun i => ?_
  rw [getElem?_values, getElem?_values]
  unfold mapCells
  rw [Array.getElem?_map, Option.map_map]
  exact Option.map_congr fun c _ => hf c

@[simp]
theorem values_deactivateAll (m : Memory) : m.deactivateAll.values = m.values :=
  values_mapCells fun _ => rfl

@[simp]
theorem values_clearFlags (m : Memory) : m.clearFlags.values = m.values :=
  values_mapCells fun _ => rfl

@[simp]
theorem values_markRead (m : Memory) (address : Int) : (m.markRead address).values = m.values := by
  refine List.ext_getElem? fun i => ?_
  rw [getElem?_values, getElem?_values]
  unfold markRead modify
  split
  · rw [Array.getElem?_modify]
    split
    · rw [Option.map_map]
      exact Option.map_congr fun _ _ => rfl
    · rfl
  · rfl

theorem values_store (m : Memory) (address value : Int) :
    (m.store address value).values = if 0 ≤ address then m.values.set address.toNat value else m.values := by
  unfold store modify
  split
  · refine List.ext_getElem? fun i => ?_
    rw [getElem?_values, Array.getElem?_modify, List.getElem?_set, length_values, getElem?_values]
    unfold size
    split
    · next h =>
      subst h
      rw [Option.map_map]
      split
      · next hi => rw [Array.getElem?_eq_getElem hi]; rfl
      · next hi => rw [Array.getElem?_eq_none (by omega)]; rfl
    · rfl
  · rfl

end Memory

/-! ## Storage -/

namespace Storage

def values (s : Storage) : Values :=
  ⟨s.registers.toMap, s.memory.values⟩

theorem names_values (s : Storage) : s.values.names = s.registers.names :=
  s.registers.names_toMap

theorem length_values (s : Storage) : s.values.memory.length = s.memory.size :=
  s.memory.length_values

theorem register?_values (s : Storage) (name : String) :
    s.values.register? name = s.registers.value? name :=
  s.registers.lookup_toMap name

theorem cell?_values (s : Storage) (address : Int) : s.values.cell? address = s.memory.value? address := by
  unfold Values.cell? Memory.value? Memory.find? values
  split
  · exact s.memory.getElem?_values _
  · rfl

theorem values_write (s : Storage) (name : String) (value : Int) :
    { s with registers := s.registers.write name value }.values = s.values.setRegister name value := by
  unfold values Values.setRegister
  rw [RegisterBank.toMap_write]

theorem values_store (s : Storage) (address value : Int) (cache : Cache.Hierarchy) :
    { s with memory := s.memory.store address value, cache }.values = s.values.setCell address value := by
  unfold values Values.setCell
  rw [Memory.values_store]
  split <;> rfl

end Storage

end PhaseMachine
