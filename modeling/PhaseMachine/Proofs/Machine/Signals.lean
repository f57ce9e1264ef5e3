/-
The signals of an execute phase tell what happened. Which ones go over the buses, and with which values,
is plain from the instruction and from storage before and after it: operands carry the values they had, a
level is named for the line that it holds, and memory is named exactly at a miss. The last signal into a
register carries the value that is recorded as its new one.
-/
import PhaseMachine.Proofs.Cache.Calls
import PhaseMachine.Proofs.Execution.Complete
import PhaseMachine.Proofs.Execution.Effect
import PhaseMachine.Proofs.Machine.Soundness
import PhaseMachine.Proofs.Machine.Stall

namespace PhaseMachine

/-! ## Levels that hold a line -/

namespace Cache

/-- Whether a level has a valid line for an address. -/
def Level.holds (l : Level) (address : Int) : Bool :=
  l.lines.any fun line => line.valid && line.address == address

theorem Level.isSome_slot? (l : Level) (address : Int) : (l.slot? address).isSome = l.holds address :=
  List.findIdx?_isSome

theorem Level.holds_of_mem {l : Level} {line : Line} (hm : line ∈ l.lines) (hv : line.valid = true) :
    l.holds line.address = true :=
  List.any_eq_true.2 ⟨line, hm, by simp [hv]⟩

namespace Hierarchy

/-- The first level with a valid line for an address. -/
def holder? (h : Hierarchy) (address : Int) : Option Tier :=
  Tier.all.find? fun t => (h.level t).holds address

variable {h k : Hierarchy} {r : Request}

theorem holder?_eq (h : Hierarchy) (a : Int) : h.holder? a = (h.locate? a).map (·.1) := by
  unfold holder? locate? Tier.all
  simp only [← Level.isSome_slot?, List.find?_cons, List.findSome?_cons]
  cases (h.level .l1).slot? a <;> cases (h.level .l2).slot? a <;> cases (h.level .l3).slot? a <;> rfl

/-- A hit leaves the line in the level that served it. -/
theorem serve_hit {t : Tier} {i : Nat} (hl : h.locate? r.address = some (t, i)) :
    (h.serve r).2.hit = true ∧ (h.serve r).2.tier = t ∧ h.holder? r.address = some t ∧
      (h.serve r).1.holder? r.address = some t ∧ (h.serve r).1.l1.misses = h.l1.misses := by
  obtain ⟨hhit, hlevels⟩ := serve_of_some hl
  obtain ⟨hi, hv, ha⟩ := locate?_some hl
  have hl' : h.locate? r.fresh.address = some (t, i) := by rw [r.address_fresh]; exact hl
  have hbefore : h.holder? r.address = some t := by
    rw [holder?_eq, hl]
    rfl
  -- the touched line takes the place of one for the same address
  have hold : (h.level t).holds r.address = true := ha ▸ Level.holds_of_mem (Level.line_mem hi) hv
  have hnew : ((h.serve r).1.level t).holds r.address = true := by
    have hin : r.touched ((h.level t).line i) ∈ ((h.serve r).1.level t).lines := by
      rw [(hlevels t).1, if_pos rfl]
      exact List.mem_set hi _
    have hholds := Level.holds_of_mem hin ((r.valid_touched _).trans hv)
    rwa [r.address_touched, ha] at hholds
  have hsame : ∀ u, ((h.serve r).1.level u).holds r.address = (h.level u).holds r.address := by
    intro u
    by_cases hu : u = t
    · rw [hu, hold, hnew]
    · unfold Level.holds
      rw [(hlevels u).1, if_neg hu]
  refine ⟨hhit, by rw [serve_eq, access_of_some hl'], hbefore, ?_, (hlevels .l1).2.2⟩
  rw [← hbefore]
  unfold holder?
  simp only [hsame]

/-- A miss brings the line into the first level. -/
theorem serve_miss (hr : h.Roomy) (hl : h.locate? r.address = none) :
    (h.serve r).2.hit = false ∧ (h.serve r).2.tier = .l1 ∧ (h.serve r).2.value = r.fresh.value ∧
      (h.serve r).1.holder? r.address = some .l1 ∧ (h.serve r).1.l1.misses = h.l1.misses + 1 := by
  have hl' : h.locate? r.fresh.address = none := by rw [r.address_fresh]; exact hl
  rw [serve_eq, access_of_none hl']
  have hin : r.fresh ∈ (((h.missed r.fresh).allocate r.fresh).level .l1).lines :=
    List.mem_set (Level.victim_lt (hr.missed r.fresh .l1)) _
  have hholds := Level.holds_of_mem hin r.valid_fresh
  rw [r.address_fresh] at hholds
  refine ⟨rfl, rfl, rfl, ?_, rfl⟩
  unfold holder? Tier.all
  rw [List.find?_cons, hholds]

/-- The level that an access names has the line afterwards, and at a hit before too. Misses are those that the
first level counts. -/
theorem serve_level (hr : h.Roomy) (r : Request) :
    (h.serve r).1.holder? r.address = some (h.serve r).2.tier ∧
      ((h.serve r).1.l1.misses = h.l1.misses + 1 ↔ (h.serve r).2.hit = false) ∧
      ((h.serve r).2.hit = true → h.holder? r.address = some (h.serve r).2.tier) ∧
      ((h.serve r).2.hit = false → (h.serve r).2.tier = .l1 ∧ (h.serve r).2.value = r.fresh.value) := by
  cases hl : h.locate? r.address with
  | some p =>
    obtain ⟨hhit, htier, hbefore, hafter, hcount⟩ := serve_hit hl
    rw [hhit, htier, hcount]
    exact ⟨hafter, by simp, fun _ => hbefore, Bool.noConfusion⟩
  | none =>
    obtain ⟨hmiss, htier, hvalue, hafter, hcount⟩ := serve_miss hr hl
    rw [hmiss, htier, hvalue]
    exact ⟨hafter, by simp [hcount], Bool.noConfusion, fun _ => ⟨rfl, rfl⟩⟩

end Hierarchy

end Cache

/-! ## What the signals tell -/

/-- Whether the opcode sets its destination. -/
def Opcode.setsRegister : Opcode → Bool
  | .load | .mov | .add | .sub | .mul | .div => true
  | _ => false

namespace Storage

/-- The value of a register. -/
def held (s : Storage) (name : String) : Int :=
  (s.registers.value? name).getD 0

/-- The value of an operand. -/
def operandHeld (s : Storage) : Option Operand → Int
  | some (.literal x) => x
  | some (.register name) => s.held name
  | none => 0

/-- The name of the level that holds the line for an address. -/
def holderName (s : Storage) (address : Int) : String :=
  ((s.cache.holder? address).map Cache.Tier.name).getD ""

/-- Whether the first level counts one miss more afterwards. -/
def Missed (before after : Storage) : Prop :=
  after.cache.l1.misses = before.cache.l1.misses + 1

instance (before after : Storage) : Decidable (before.Missed after) :=
  inferInstanceAs (Decidable (_ = _))

end Storage

namespace Instruction

def destinationName (i : Instruction) : String :=
  match i.destination with
  | .given name => name
  | _ => ""

/-- Where an operand comes from. -/
def operandName : Option Operand → String
  | some (.register name) => name
  | _ => "CPU"

section Telling

variable (i : Instruction) (before after : Storage)

/-- A move goes from the operand to the destination. -/
def moveTelling : List Signal :=
  [⟨.data, operandName i.operand1, i.destinationName, before.operandHeld i.operand1⟩]

/-- Both operands go to the unit with the values they had, and what the destination holds afterwards comes
from it. -/
def computeTelling : List Signal :=
  [
    ⟨.data, operandName i.operand1, "ALU", before.operandHeld i.operand1⟩,
    ⟨.data, operandName i.operand2, "ALU", before.operandHeld i.operand2⟩,
    ⟨.control, "ControlUnit", "ALU", 0⟩,
    ⟨.data, "ALU", i.destinationName, after.held i.destinationName⟩
  ]

/-- A load goes from the level with the line to the destination, and at a miss from memory to the first level
before. -/
def loadTelling (address : Int) : List Signal :=
  if before.Missed after then [
    ⟨.data, "Memory", "L1", before.memory.peek address⟩,
    ⟨.data, "L1", i.destinationName, after.held i.destinationName⟩
  ]
  else [⟨.data, before.holderName address, i.destinationName, after.held i.destinationName⟩]

/-- A store sends the address to memory and the value to the level that has the line afterwards, and at a miss
on to memory. -/
def storeTelling (address : Int) : List Signal :=
  [
    ⟨.address, "CPU", "Memory", address⟩,
    ⟨.data, i.destinationName, after.holderName address, before.held i.destinationName⟩
  ] ++
  if before.Missed after then
    [⟨.data, after.holderName address, "Memory", before.held i.destinationName⟩]
  else []

/-- The signals of an instruction. One that lacks something sends none, and neither do jumps and halt. -/
def telling : List Signal :=
  if i.isComplete before.registers.names before.memory.size then
    match i.opcode, i.address with
    | .mov, _ => i.moveTelling before
    | .load, .given address => i.loadTelling before after address
    | .load, _ => i.moveTelling before
    | .store, .given address => i.storeTelling before after address
    | .add, _ | .sub, _ | .mul, _ | .div, _ => i.computeTelling before after
    | _, _ => []
  else []

/-- The change of the destination, if the instruction sets one. -/
def writing : List RegisterChange :=
  if i.isComplete before.registers.names before.memory.size && i.opcode.setsRegister then
    [⟨i.destinationName, before.held i.destinationName, after.held i.destinationName⟩]
  else []

end Telling

/-- The effect sends what storage before and after it tells, records the change of the destination, and ends
with a signal of the value there. -/
structure Tells (i : Instruction) (s : Storage) (e : Effect) : Prop where
  signals : e.signals = i.telling s e.storage
  changes : e.registerChanges = i.writing s e.storage
  last : ∀ c ∈ e.registerChanges, ∃ source, e.signals.getLast? = some ⟨.data, source, c.name, c.new⟩

variable {i : Instruction} {s : Storage}

theorem destination_ok {part : Part} {d : Register} (h : s.namedRegister part i.destination = .ok d) :
    i.destinationName = d.name ∧ s.held d.name = d.value ∧ s.registers.find? d.name = some d := by
  obtain ⟨hd, hf⟩ := Storage.namedRegister_ok h
  refine ⟨by rw [destinationName, hd], ?_, hf⟩
  rw [Storage.held, RegisterBank.value?, hf]
  rfl

theorem operand_ok {part : Part} {o : Option Operand} {x : Source} (h : s.operandSource part o = .ok x) :
    operandName o = x.name ∧ s.operandHeld o = x.value := by
  cases o with
  | none => cases h
  | some o =>
    cases o with
    | literal value =>
      cases h
      exact ⟨rfl, rfl⟩
    | register name =>
      obtain ⟨r, hr, h⟩ := bind_ok h
      cases h
      obtain ⟨hname, hf⟩ := Storage.namedRegister_ok hr
      obtain rfl := Field.given.inj hname
      refine ⟨rfl, ?_⟩
      rw [Storage.operandHeld, Storage.held, RegisterBank.value?, hf]
      rfl

/-- A register that was written holds the value. -/
theorem held_of_write {t : Storage} {d : Register} {value : Int} (hf : s.registers.find? d.name = some d)
    (ht : t.registers.toMap = (s.registers.write d.name value).toMap) : t.held d.name = value := by
  rw [Storage.held, ← RegisterBank.lookup_toMap, ht, RegisterBank.lookup_toMap, RegisterBank.value?,
    RegisterBank.write, RegisterBank.find?_modify, if_pos rfl, hf]
  rfl

/-! ### Effects that set the destination -/

/-- The effect sends the given signals, the last of which carries the value that the destination comes to
hold, and records this as the change of the destination. -/
structure Fills (i : Instruction) (s : Storage) (told : List Signal) (e : Effect) : Prop where
  signals : e.signals = told
  changes : e.registerChanges =
    [⟨i.destinationName, s.held i.destinationName, e.storage.held i.destinationName⟩]
  last : ∃ source,
    e.signals.getLast? = some ⟨.data, source, i.destinationName, e.storage.held i.destinationName⟩

theorem fills_of_write {part : Part} {d : Register} {value : Int} {e : Effect} {told : List Signal}
    (hd : s.namedRegister part i.destination = .ok d)
    (hregisters : e.storage.registers.toMap = (s.registers.write d.name value).toMap)
    (hchanges : e.registerChanges = [⟨d.name, d.value, value⟩])
    (hlast : ∃ source, e.signals.getLast? = some ⟨.data, source, d.name, value⟩)
    (htold : i.destinationName = d.name → e.storage.held d.name = value → told = e.signals) :
    i.Fills s told e := by
  obtain ⟨hname, hold, hf⟩ := destination_ok hd
  have hnew : e.storage.held d.name = value := held_of_write hf hregisters
  exact ⟨(htold hname hnew).symm, by rw [hname, hold, hnew, hchanges], by rw [hname, hnew]; exact hlast⟩

variable {x : Action}

theorem moveAction_fills (h : i.moveAction s = .ok x) (cycle : Int) :
    i.Fills s (i.moveTelling s) (x.effect s cycle) := by
  obtain ⟨d, hd, h⟩ := bind_ok h
  obtain ⟨source, hsource, h⟩ := bind_ok h
  cases h
  obtain ⟨hfrom, hvalue⟩ := operand_ok hsource
  refine fills_of_write hd rfl rfl ⟨source.name, rfl⟩ fun hname _ => ?_
  rw [moveTelling, hfrom, hvalue, hname]
  rfl

theorem computeAction_fills {f : Int → Int → Int} (h : i.computeAction f s = .ok x) (cycle : Int) :
    i.Fills s (i.computeTelling s (x.effect s cycle).storage) (x.effect s cycle) := by
  obtain ⟨d, hd, h⟩ := bind_ok h
  obtain ⟨a, ha, h⟩ := bind_ok h
  obtain ⟨b, hb, h⟩ := bind_ok h
  cases h
  obtain ⟨hafrom, havalue⟩ := operand_ok ha
  obtain ⟨hbfrom, hbvalue⟩ := operand_ok hb
  -- the registers of the operands keep their values when they become active
  have hregisters := (Action.toMap_activate (Action.activate (s.registers.write d.name
    (f a.value b.value)) a) b).trans (Action.toMap_activate _ a)
  refine fills_of_write hd hregisters rfl ⟨"ALU", rfl⟩ fun hname hnew => ?_
  rw [computeTelling, hafrom, havalue, hbfrom, hbvalue, hname, hnew]
  rfl

theorem loadEffect_fills {part : Part} {d : Register} (hd : s.namedRegister part i.destination = .ok d)
    (hroomy : s.cache.Roomy) (cycle a : Int) (asFlag : Bool) :
    i.Fills s (i.loadTelling s (Action.loadEffect s cycle d a asFlag).storage a)
      (Action.loadEffect s cycle d a asFlag) := by
  let r : Cache.Request := { address := a, cycle, purpose := .read s.memory, asFlag }
  let found := (s.cache.serve r).2
  have hregisters : (Action.loadEffect s cycle d a asFlag).storage.registers.toMap =
      (s.registers.write d.name found.value).toMap := rfl
  have hsignals : (Action.loadEffect s cycle d a asFlag).signals =
      if found.hit then [⟨.data, found.tier.name, d.name, found.value⟩]
      else [
        ⟨.data, "Memory", found.tier.name, found.value⟩,
        ⟨.data, found.tier.name, d.name, found.value⟩] := rfl
  refine fills_of_write hd hregisters rfl ⟨found.tier.name, ?_⟩ fun hname hnew => ?_
  · rw [hsignals]
    split <;> rfl
  · obtain ⟨-, hmissed, hbefore, hfresh⟩ := Cache.Hierarchy.serve_level hroomy r
    change s.Missed (Action.loadEffect s cycle d a asFlag).storage ↔ found.hit = false at hmissed
    rw [loadTelling, hname, hnew, hsignals]
    simp only [hmissed]
    cases hhit : found.hit with
    | true =>
      rw [Storage.holderName, show s.cache.holder? a = some found.tier from hbefore hhit]
      rfl
    | false =>
      obtain ⟨htier, hvalue⟩ := hfresh hhit
      rw [show found.tier = .l1 from htier, show found.value = s.memory.peek a from hvalue]
      rfl

theorem storeEffect_signals {part : Part} {d : Register} (hd : s.namedRegister part i.destination = .ok d)
    (hroomy : s.cache.Roomy) (cycle a old : Int) :
    (Action.storeEffect s cycle d a old).signals =
      i.storeTelling s (Action.storeEffect s cycle d a old).storage a := by
  obtain ⟨hname, hvalue, -⟩ := destination_ok hd
  let r : Cache.Request := { address := a, cycle, purpose := .write d.value }
  let found := (s.cache.serve r).2
  have hsignals : (Action.storeEffect s cycle d a old).signals =
      [⟨.address, "CPU", "Memory", a⟩, ⟨.data, d.name, found.tier.name, d.value⟩] ++
        if found.hit then [] else [⟨.data, found.tier.name, "Memory", d.value⟩] := rfl
  obtain ⟨hafter, hmissed, -⟩ := Cache.Hierarchy.serve_level hroomy r
  change s.Missed (Action.storeEffect s cycle d a old).storage ↔ found.hit = false at hmissed
  rw [storeTelling, hname, hvalue, hsignals, Storage.holderName,
    show (Action.storeEffect s cycle d a old).storage.cache.holder? a = some found.tier from hafter]
  simp only [hmissed]
  cases found.hit <;> rfl

/-! ### Instructions -/

theorem address_ok {a : Int} {c : Cell} (hi : i.address.isProper = true)
    (h : s.addressedCell i.address = .ok (a, c)) : i.address = .given a := by
  cases ha : i.address with
  | absent => rw [ha] at h; cases h
  | foreign v => rw [ha] at hi; cases hi
  | given b =>
    rw [ha] at h
    unfold Storage.addressedCell at h
    dsimp only at h
    split at h <;> cases h
    rfl

theorem Fills.tells {told : List Signal} {e : Effect} (h : i.Fills s told e)
    (hc : i.isComplete s.registers.names s.memory.size = true) (ho : i.opcode.setsRegister = true)
    (ht : i.telling s e.storage = told) : i.Tells s e where
  signals := h.signals.trans ht.symm
  changes := by rw [h.changes, writing, hc, ho]; rfl
  last := by
    intro c hmem
    rw [h.changes, List.mem_singleton] at hmem
    rw [hmem]
    exact h.last

theorem loadAction_tells (hw : i.WellTyped) (ho : i.opcode = .load) (hroomy : s.cache.Roomy)
    (hc : i.isComplete s.registers.names s.memory.size = true) (h : i.loadAction s = .ok x) (cycle : Int) :
    i.Tells s (x.effect s cycle) := by
  have hsets : i.opcode.setsRegister = true := by rw [ho]; rfl
  unfold loadAction at h
  split at h
  · next ha => exact (moveAction_fills h cycle).tells hc hsets (by simp only [telling, hc, ho, ha, if_true])
  · obtain ⟨d, hd, h⟩ := bind_ok h
    obtain ⟨⟨a, c⟩, haddress, h⟩ := bind_ok h
    cases h
    have ha := address_ok hw.2 haddress
    exact (loadEffect_fills hd hroomy cycle a _).tells hc hsets (by simp only [telling, hc, ho, ha, if_true])

theorem storeAction_tells (hw : i.WellTyped) (ho : i.opcode = .store) (hroomy : s.cache.Roomy)
    (hc : i.isComplete s.registers.names s.memory.size = true) (h : i.storeAction s = .ok x) (cycle : Int) :
    i.Tells s (x.effect s cycle) := by
  obtain ⟨d, hd, h⟩ := bind_ok h
  obtain ⟨⟨a, c⟩, haddress, h⟩ := bind_ok h
  cases h
  have ha := address_ok hw.2 haddress
  constructor
  · rw [telling, hc, ho, ha]
    exact storeEffect_signals hd hroomy cycle a c.value
  · rw [writing, ho, Bool.and_comm]
    rfl
  · intro change hmem
    cases hmem

/-- What an instruction asks for is told when it is done. -/
theorem action_tells (hw : i.WellTyped) (hroomy : s.cache.Roomy)
    (hc : i.isComplete s.registers.names s.memory.size = true) (h : i.action s = .ok x) (cycle : Int) :
    i.Tells s (x.effect s cycle) := by
  unfold action at h
  cases ho : i.opcode with
  | load => rw [ho] at h; exact loadAction_tells hw ho hroomy hc h cycle
  | store => rw [ho] at h; exact storeAction_tells hw ho hroomy hc h cycle
  | mov =>
    rw [ho] at h
    exact (moveAction_fills h cycle).tells hc (by rw [ho]; rfl) (by simp only [telling, hc, ho, if_true])
  | add | sub | mul | div =>
    rw [ho] at h
    exact (computeAction_fills h cycle).tells hc (by rw [ho]; rfl) (by simp only [telling, hc, ho, if_true])
  | jmp | jz | jnz | halt =>
    rw [ho] at h
    cases h
    refine ⟨?_, ?_, fun c hmem => by cases hmem⟩
    · simp [Action.effect, telling, ho]
    · simp [Action.effect, writing, ho, Opcode.setsRegister]

/-- An instruction that lacks something tells nothing. -/
theorem telling_of_incomplete (hc : i.isComplete s.registers.names s.memory.size = false) (after : Storage) :
    i.telling s after = [] ∧ i.writing s after = [] := by
  rw [telling, writing, hc]
  exact ⟨rfl, rfl⟩

end Instruction

/-! ## The bus log -/

namespace Machine

variable {τ : Type} [Quantity τ]

theorem transfers_sendAll (m : Machine τ) (signals : List Signal) :
    ∃ sent, (m.sendAll signals).bus.transfers = m.bus.transfers ++ sent ∧ sent.map (·.signal) = signals := by
  induction signals generalizing m with
  | nil => exact ⟨[], (List.append_nil _).symm, rfl⟩
  | cons signal signals ih =>
    obtain ⟨sent, hsent, hsignals⟩ := ih (m.send signal)
    refine ⟨m.bus.newTransfer m.clock signal :: sent, ?_, congrArg (signal :: ·) hsignals⟩
    rw [show m.sendAll (signal :: signals) = (m.send signal).sendAll signals from rfl, hsent,
      List.append_cons]
    rfl

/-- What a step with an effect appends to the bus log and to the history. -/
theorem logs_step {m : Machine τ} {i : Instruction} {e : Effect} (hi : m.program[m.index]? = some i)
    (hw : m.enter.work i = .ok e) :
    ∃ sent, m.step.machine.bus.transfers = m.bus.transfers ++ sent ∧ sent.map (·.signal) = e.signals ∧
      m.step.machine.history = m.history ++ [m.enter.entry i e] ∧ m.step.machine.storage = e.storage := by
  obtain ⟨sent, hsent, hsignals⟩ := transfers_sendAll
    { m.enter with storage := e.storage, pc := m.enter.pcAfter, ir := m.enter.irAfter i } e.signals
  have hbus : (m.enter.recorded i e).bus.transfers = m.bus.transfers ++ sent := by
    rw [← show m.enter.bus.transfers = m.bus.transfers from rfl, ← hsent]
    unfold recorded carry
    dsimp only
    split <;> rfl
  -- shown in assembly or not, the instruction is carried out and recorded
  obtain ⟨index, stage, hs⟩ :
      ∃ index stage, m.step.machine = { m.enter.recorded i e with index, stage } := by
    rcases step_of_ok hi hw with ⟨text, -, -, hs⟩ | ⟨u, -, -, hs⟩
    · rw [hs]
      exact proceed_eq _
    · exact ⟨_, _, hs⟩
  obtain ⟨bus, timers, hr⟩ := m.enter.recorded_eq i e
  refine ⟨sent, by rw [hs]; exact hbus, hsignals, ?_, ?_⟩
  · rw [hs, hr]
    rfl
  · rw [hs, hr]

/-- A step in the execute phase of a well-typed instruction appends to the bus log what storage before and
after it tells, in order and nothing else, and to the history the change of the destination. If there is one,
the last signal carries the new value there. Only the cache has to have room in each level, as every cache
that is made does. -/
theorem signals_tell {m : Machine τ} {i : Instruction} (hi : m.program[m.index]? = some i)
    (hs : m.stage = .execute) (hw : i.WellTyped) (hroomy : m.storage.cache.Roomy) :
    ∃ sent records, m.step.machine.bus.transfers = m.bus.transfers ++ sent ∧
      m.step.machine.history = m.history ++ records ∧
      sent.map (·.signal) = i.telling m.storage m.step.machine.storage ∧
      records.flatMap (·.registerChanges) = i.writing m.storage m.step.machine.storage ∧
      ∀ c ∈ records.flatMap (·.registerChanges), ∃ source,
        (sent.map (·.signal)).getLast? = some ⟨.data, source, c.name, c.new⟩ := by
  have hwork := work_execute hs i
  rcases Instruction.action_decides hw (s := m.storage) with ⟨hc, x, ha⟩ | ⟨hc, w, ha⟩
  · rw [Instruction.attempt_of_ok ha] at hwork
    obtain ⟨sent, hsent, hsignals, hhistory, hstorage⟩ := logs_step hi hwork
    have htells := Instruction.action_tells hw hroomy hc ha m.enter.cycle
    refine ⟨sent, [_], hsent, hhistory, ?_, ?_, ?_⟩
    · rw [hsignals, hstorage]
      exact htells.signals
    · rw [hstorage]
      exact (List.append_nil _).trans htells.changes
    · rw [hsignals, List.flatMap_singleton]
      exact htells.last
  · obtain ⟨htelling, hwriting⟩ := Instruction.telling_of_incomplete hc m.step.machine.storage
    rw [htelling, hwriting]
    rw [Instruction.attempt_of_error ha] at hwork
    rcases Instruction.response_flaw i m.strict w with ⟨-, -, hr⟩ | ⟨f, hr⟩ <;> rw [hr] at hwork
    -- it is passed over, or the step fails
    · obtain ⟨sent, hsent, hsignals, hhistory, -⟩ := logs_step hi hwork
      refine ⟨sent, [_], hsent, hhistory, hsignals, rfl, fun c hmem => ?_⟩
      cases hmem
    · obtain ⟨-, hstep⟩ := step_of_error hi hwork
      rw [hstep]
      exact ⟨[], [], (List.append_nil _).symm, (List.append_nil _).symm, rfl, rfl, by simp⟩

/-- In the execute phase of a load that the second level serves. -/
def servedRun : List (Op Rat) :=
  demotingRun ++ [.load [{ opcode := .load, destination := .given "R1", address := .given 2 }], .step, .step]

theorem signals_tell_served :
    let m := (small true false).after servedRun
    m.step.machine.bus.transfers.map (·.signal) =
        m.bus.transfers.map (·.signal) ++ [⟨.data, "L2", "R1", 7⟩] ∧
      m.step.machine.history.flatMap (·.registerChanges) = [⟨"PC", 4, 1⟩, ⟨"R1", 0, 7⟩] := by
  intro m
  have hi : m.program[m.index]? = some { opcode := .load, destination := .given "R1", address := .given 2 } :=
    rfl
  obtain ⟨sent, records, hsent, hrecords, hsignals, hchanges, -⟩ := signals_tell hi (by decide +kernel)
    (by decide) ((reachable_small true false).after servedRun).sound.roomy_storage
  rw [hsent, hrecords, List.map_append, List.flatMap_append, hsignals, hchanges]
  decide +kernel

end Machine

end PhaseMachine
