/-
An attempt at an instruction in the order in which it happens: fields are checked and looked up, values
are written and recorded, the cache is asked and signals are sent one after the other, and what was done
before a stop stays done. Each check answers what a look-up in storage finds and changes nothing; each
change finds the register or the cell that was looked up before.
-/
import PhaseMachine.Machine.Step
import PhaseMachine.Proofs.Execution.Action

namespace PhaseMachine.Machine

/-- What stops an attempt under way: a failure, or a register or a cell that is not there when it is
used. -/
inductive Stop where
  | failure (f : Failure)
  | noRegister (e : RegisterBank.NotFound)
  | noCell (e : Memory.OutOfBounds)
deriving DecidableEq, Repr

/-- Work on a turn piece by piece. -/
abbrev InOrder (τ : Type) := ExceptT Stop (StateM (Turn τ))

namespace InOrder

variable {τ α β : Type}

/-! ## Pieces -/

/-- Stops for a flaw, which is reported by the id of the instruction. -/
def flawed (i : Instruction) (w : Flaw) : InOrder τ α :=
  if i.id.isWritable then throw (.failure (.malformed (i.malformed w)))
  else throw (.failure (.misuse .unwritable))

def report (e : Event) : InOrder τ Unit :=
  modify fun t => { t with log := t.log ++ [e] }

def storage : InOrder τ Storage := do
  return (← get).machine.storage

def setStorage (s : Storage) : InOrder τ Unit :=
  modify fun t => { t with machine := { t.machine with storage := s } }

def register (name : String) : InOrder τ Register := do
  match (← storage).registers.get name with
  | .ok r => return r
  | .error e => throw (.noRegister e)

/-- Sets a register and records the change. -/
def writeRegister (name : String) (value : Int) : InOrder τ Unit := do
  let r ← register name
  let s ← storage
  setStorage { s with registers := s.registers.write name value }
  modify fun t => { t with registerChanges := t.registerChanges ++ [⟨name, r.value, value⟩] }

def activate : Option Operand → InOrder τ Unit
  | some (.register name) => do
    let r ← register name
    let s ← storage
    setStorage { s with registers := s.registers.setActive r.name true }
  | _ => return

def readCell (address : Int) (asFlag : Bool) : InOrder τ Int := do
  let s ← storage
  match s.memory.read address asFlag with
  | .ok (value, memory) =>
    setStorage { s with memory }
    return value
  | .error e => throw (.noCell e)

/-- Sets a cell and records the change. -/
def writeCell (address value : Int) : InOrder τ Unit := do
  let s ← storage
  match s.memory.write address value with
  | .ok (old, memory) =>
    setStorage { s with memory }
    modify fun t => { t with memoryChanges := t.memoryChanges ++ [⟨address, old, value⟩] }
  | .error e => throw (.noCell e)

/-- Asks the cache, which may report a line that makes way. -/
def askCache (ask : Storage → Nat → Cache.Hierarchy × Cache.Access) : InOrder τ Cache.Access := do
  let t ← get
  let (cache, access) := ask t.machine.storage t.machine.cycle
  setStorage { t.machine.storage with cache }
  access.evicted.toList.forM fun line => report (.evicted line)
  return access

/-! ## Checks -/

def requireRegister (i : Instruction) (part : Part) : Field String → InOrder τ Register
  | .absent => flawed i (.missing part)
  | .given name =>
    tryCatch (register name) fun
      | .noRegister e => flawed i (.unknownRegister e.name part)
      | stop => throw stop
  | .foreign v =>
    if !v.isAtomic then throw (.failure (.misuse .wrongKind))
    else if v.isWritable then flawed i (.unknownRegister v.text part)
    else throw (.failure (.misuse .unwritable))

/-- The address of the instruction, if it is inside memory. -/
def requireCell (i : Instruction) : InOrder τ Int := do
  let s ← storage
  let cellAt (a : Int) : InOrder τ Int :=
    match s.memory.find? a with
    | some _ => return a
    | none => flawed i (.outsideMemory a)
  match i.address with
  | .absent => flawed i (.missing .address)
  | .given a => cellAt a
  | .foreign (.bool b) => cellAt b.toNat
  | .foreign v => throw (.failure (.misuse (s.strangeAddress v)))

def resolveOperand (i : Instruction) (part : Part) : Option Operand → InOrder τ Int
  | none => flawed i (.missing part)
  | some (.literal value) => return value
  | some (.register name) => do
    let r ← requireRegister i part (.given name)
    return r.value

def operandName : Option Operand → String
  | some (.register name) => name
  | _ => "CPU"

/-! ## Instructions -/

variable [Quantity τ]

def transfer (signal : Signal) : InOrder τ Unit := do
  modify fun t => { t with machine := t.machine.send signal }
  report (.transferred signal)

/-- Sets a register to the value of an operand. -/
def assign (destination : String) (operand : Option Operand) (value : Int) : InOrder τ Unit := do
  writeRegister destination value
  transfer ⟨.data, operandName operand, destination, value⟩

def move (i : Instruction) : InOrder τ Unit := do
  let destination ← requireRegister i .destination i.destination
  let value ← resolveOperand i .operand1 i.operand1
  assign destination.name i.operand1 value

/-- Sets a register to what the cache answers for an address. -/
def loadFrom (destination : String) (address : Int) (asFlag : Bool) : InOrder τ Unit := do
  let access ← askCache fun s cycle => s.cache.check address (s.memory.peek address) cycle asFlag
  let _ ← readCell address asFlag
  writeRegister destination access.value
  if access.hit then transfer ⟨.data, access.tier.name, destination, access.value⟩
  else do
    transfer ⟨.data, "Memory", access.tier.name, access.value⟩
    transfer ⟨.data, access.tier.name, destination, access.value⟩

def load (i : Instruction) : InOrder τ Unit := do
  let destination ← requireRegister i .destination i.destination
  match i.address with
  | .absent =>
    let value ← resolveOperand i .operand1 i.operand1
    assign destination.name i.operand1 value
  | address =>
    let a ← requireCell i
    loadFrom destination.name a address.isFlag

/-- Sets a cell of memory and the line for it in the cache. -/
def storeTo (source : String) (address value : Int) : InOrder τ Unit := do
  writeCell address value
  let access ← askCache fun s cycle => s.cache.update address value cycle
  transfer ⟨.address, "CPU", "Memory", address⟩
  transfer ⟨.data, source, access.tier.name, value⟩
  if !access.hit then transfer ⟨.data, access.tier.name, "Memory", value⟩

def store (i : Instruction) : InOrder τ Unit := do
  let source ← requireRegister i .destination i.destination
  let a ← requireCell i
  storeTo source.name a source.value

/-- Sets a register to the result of an operation on two operands, which become active. -/
def result (i : Instruction) (f : Int → Int → Int) (destination : String) (a b : Int) : InOrder τ Unit := do
  writeRegister destination (f a b)
  activate i.operand1
  activate i.operand2
  transfer ⟨.data, operandName i.operand1, "ALU", a⟩
  transfer ⟨.data, operandName i.operand2, "ALU", b⟩
  transfer ⟨.control, "ControlUnit", "ALU", 0⟩
  transfer ⟨.data, "ALU", destination, f a b⟩

def compute (i : Instruction) (f : Int → Int → Int) : InOrder τ Unit := do
  let destination ← requireRegister i .destination i.destination
  let a ← resolveOperand i .operand1 i.operand1
  let b ← resolveOperand i .operand2 i.operand2
  result i f destination.name a b

def carryOut (i : Instruction) : InOrder τ Unit :=
  match i.opcode with
  | .load => load i
  | .store => store i
  | .mov => move i
  | o => match o.operation? with
    | some f => compute i f
    | none => report (.ineffective i.opcode)

/-- An attempt, which answers whether the instruction was carried out. -/
def attempt (i : Instruction) (strict : Bool) : InOrder τ Bool :=
  tryCatch (do carryOut i; return true) fun
    | .failure (.malformed x) => do
      if strict then throw (.failure (.malformed x))
      report (.skipped x)
      return false
    | stop => throw stop

end InOrder

/-! ## How pieces come out -/

/-- What a fault stops an attempt with. -/
def stopFor (i : Instruction) : Fault → Stop
  | .flaw w => if i.id.isWritable then .failure (.malformed (i.malformed w)) else .failure (.misuse .unwritable)
  | .misuse u => .failure (.misuse u)

namespace InOrder

variable {τ α β : Type} {x : InOrder τ α} {f : α → InOrder τ β} {t u : Turn τ} {i : Instruction}

/-- What comes of the work, and the turn as it is then. -/
def outcome (x : InOrder τ α) (t : Turn τ) : Except Stop α × Turn τ :=
  x.run.run t

theorem bind_of_ok {a : α} (h : x.outcome t = (.ok a, u)) : (x >>= f).outcome t = (f a).outcome u := by
  unfold outcome at h ⊢
  rw [ExceptT.run_bind, StateT.run_bind, h]
  rfl

theorem next {a : α} {v : Except Stop β × Turn τ} (h : x.outcome t = (.ok a, u))
    (hf : (f a).outcome u = v) : (x >>= f).outcome t = v :=
  (bind_of_ok h).trans hf

theorem bind_of_error {e : Stop} (h : x.outcome t = (.error e, u)) : (x >>= f).outcome t = (.error e, u) := by
  unfold outcome at h ⊢
  rw [ExceptT.run_bind, StateT.run_bind, h]
  rfl

theorem catch_of_ok {g : Stop → InOrder τ α} {a : α} (h : x.outcome t = (.ok a, u)) :
    (tryCatch x g).outcome t = (.ok a, u) := by
  have h : StateT.run x t = _ := h
  show (ExceptT.tryCatch x g).run.run t = _
  rw [ExceptT.tryCatch, ExceptT.run_mk, StateT.run_bind, h]
  rfl

theorem catch_of_error {g : Stop → InOrder τ α} {e : Stop} (h : x.outcome t = (.error e, u)) :
    (tryCatch x g).outcome t = (g e).outcome u := by
  have h : StateT.run x t = _ := h
  show (ExceptT.tryCatch x g).run.run t = _
  rw [ExceptT.tryCatch, ExceptT.run_mk, StateT.run_bind, h]
  rfl

theorem outcome_get : outcome get t = (.ok t, t) :=
  rfl

theorem outcome_storage : outcome storage t = (.ok t.machine.storage, t) :=
  rfl

theorem outcome_flawed (w : Flaw) : (flawed i w : InOrder τ α).outcome t = (.error (stopFor i (.flaw w)), t) := by
  unfold flawed stopFor
  split <;> rfl

theorem register_of_find {name : String} {r : Register}
    (h : t.machine.storage.registers.find? name = some r) : (register name).outcome t = (.ok r, t) := by
  rw [register, bind_of_ok outcome_storage, RegisterBank.get, h]
  rfl

theorem register_of_none {name : String} (h : t.machine.storage.registers.find? name = none) :
    (register name).outcome t = (.error (.noRegister ⟨name⟩), t) := by
  rw [register, bind_of_ok outcome_storage, RegisterBank.get, h]
  rfl

/-! ## Checks -/

/-- A check answers part of what a look-up finds in storage, and stops where that fails. It changes
nothing. -/
def Checks (x : InOrder τ α) (i : Instruction) (t : Turn τ) (y : Except Fault β) (p : β → α) : Prop :=
  x.outcome t = match y with
    | .ok b => (.ok (p b), t)
    | .error w => (.error (stopFor i w), t)

theorem requireRegister_checks (part : Part) (f : Field String) :
    Checks (requireRegister i part f) i t (t.machine.storage.namedRegister part f) id := by
  unfold Checks
  cases f with
  | absent => exact outcome_flawed (.missing part)
  | foreign v =>
    simp only [requireRegister, Storage.namedRegister]
    split
    · rfl
    · split
      · exact outcome_flawed (.unknownRegister v.text part)
      · rfl
  | given name =>
    simp only [requireRegister, Storage.namedRegister, RegisterBank.get]
    cases hr : t.machine.storage.registers.find? name with
    | some r => exact catch_of_ok (register_of_find hr)
    | none => exact (catch_of_error (register_of_none hr)).trans (outcome_flawed (.unknownRegister name part))

theorem requireCell_checks :
    Checks (requireCell i) i t (t.machine.storage.addressedCell i.address) Prod.fst := by
  have hcell : ∀ a : Int, Checks (match t.machine.storage.memory.find? a with
      | some _ => return a
      | none => flawed i (.outsideMemory a)) i t (match t.machine.storage.memory.find? a with
      | some c => .ok (a, c)
      | none => .error (.flaw (.outsideMemory a))) (Prod.fst : Int × Cell → Int) := by
    intro a
    unfold Checks
    cases t.machine.storage.memory.find? a with
    | some c => rfl
    | none => exact outcome_flawed (.outsideMemory a)
  unfold Checks requireCell
  rw [bind_of_ok outcome_storage]
  unfold Storage.addressedCell
  cases i.address with
  | absent => exact outcome_flawed (.missing .address)
  | given a => exact hcell a
  | foreign v =>
    cases v with
    | bool b => exact hcell b.toNat
    | _ => rfl

theorem resolveOperand_checks (part : Part) (o : Option Operand) :
    Checks (resolveOperand i part o) i t (t.machine.storage.operandSource part o) Source.value := by
  unfold Checks
  cases o with
  | none => exact outcome_flawed (.missing part)
  | some o =>
    cases o with
    | literal value => rfl
    | register name =>
      have h := requireRegister_checks (i := i) (t := t) part (.given name)
      unfold Checks at h
      simp only [resolveOperand, Storage.operandSource]
      cases hr : t.machine.storage.namedRegister part (.given name) with
      | ok r =>
        rw [hr] at h
        exact bind_of_ok h
      | error w =>
        rw [hr] at h
        exact bind_of_error h

/-! ## Changes -/

variable {s : Storage}

theorem writeRegister_of_find {name : String} {r : Register} (value : Int)
    (h : t.machine.storage.registers.find? name = some r) :
    (writeRegister name value).outcome t = (.ok (), { t with
      machine := { t.machine with
        storage := { t.machine.storage with registers := t.machine.storage.registers.write name value } }
      registerChanges := t.registerChanges ++ [⟨name, r.value, value⟩] }) := by
  rw [writeRegister, bind_of_ok (register_of_find h)]
  rfl

theorem readCell_of_find {address : Int} {c : Cell} (asFlag : Bool)
    (h : t.machine.storage.memory.find? address = some c) :
    (readCell address asFlag).outcome t = (.ok c.value, { t with
      machine := { t.machine with
        storage := { t.machine.storage with memory := t.machine.storage.memory.markRead address } } }) := by
  rw [readCell, bind_of_ok outcome_storage, Memory.read, h]
  rfl

theorem writeCell_of_find {address : Int} {c : Cell} (value : Int)
    (h : t.machine.storage.memory.find? address = some c) :
    (writeCell address value).outcome t = (.ok (), { t with
      machine := { t.machine with
        storage := { t.machine.storage with memory := t.machine.storage.memory.store address value } }
      memoryChanges := t.memoryChanges ++ [⟨address, c.value, value⟩] }) := by
  rw [writeCell, bind_of_ok outcome_storage, Memory.write, h]
  rfl

theorem outcome_askCache (ask : Storage → Nat → Cache.Hierarchy × Cache.Access) :
    (askCache ask).outcome t = (.ok (ask t.machine.storage t.machine.cycle).2, { t with
      machine := { t.machine with
        storage := { t.machine.storage with cache := (ask t.machine.storage t.machine.cycle).1 } }
      log := t.log ++ (ask t.machine.storage t.machine.cycle).2.evicted.toList.map Event.evicted }) := by
  rw [askCache, bind_of_ok outcome_get]
  cases he : (ask t.machine.storage t.machine.cycle).2.evicted with
  | none =>
    simp only [he, Option.toList_none, List.map_nil, List.append_nil]
    rfl
  | some line =>
    simp only [he, Option.toList_some]
    rfl

theorem names_activate (b : RegisterBank) (source : Source) : (Action.activate b source).names = b.names := by
  unfold Action.activate
  split
  · rw [RegisterBank.setActive, RegisterBank.names_modify]
  · rfl

/-- The register of an operand that was looked up becomes active, whatever was written meanwhile. -/
theorem activate_of_source {part : Part} {o : Option Operand} {source : Source}
    (h : s.operandSource part o = .ok source)
    (hn : t.machine.storage.registers.names = s.registers.names) :
    (activate o).outcome t = (.ok (), { t with
      machine := { t.machine with
        storage := { t.machine.storage with
          registers := Action.activate t.machine.storage.registers source } } }) := by
  cases o with
  | none => cases h
  | some o =>
    cases o with
    | literal value =>
      cases h
      rfl
    | register name =>
      obtain ⟨r, hr, h⟩ := bind_ok h
      cases h
      obtain ⟨hname, hfound⟩ := Storage.namedRegister_ok hr
      cases hname
      have hmem := (s.registers.isSome_find? r.name).1 (by rw [hfound]; rfl)
      rw [← hn] at hmem
      obtain ⟨r', hr'⟩ := Option.isSome_iff_exists.1 ((t.machine.storage.registers.isSome_find? r.name).2 hmem)
      rw [activate, bind_of_ok (register_of_find hr'), RegisterBank.name_of_find? hr']
      rfl

theorem operandName_of_source {part : Part} {o : Option Operand} {source : Source}
    (h : s.operandSource part o = .ok source) : operandName o = source.name := by
  cases o with
  | none => cases h
  | some o =>
    cases o with
    | literal value =>
      cases h
      rfl
    | register name =>
      obtain ⟨r, -, h⟩ := bind_ok h
      cases h
      rfl

end InOrder

end PhaseMachine.Machine
