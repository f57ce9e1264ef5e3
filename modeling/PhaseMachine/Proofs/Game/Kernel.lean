/-
The game against the kernel. Both carry out instructions without an address, the game on its own three
registers and the kernel on any storage that holds the same; and they find the same operands and the
same results. But the game moves literals only. So after an action that is accepted the registers agree,
unless it was to copy a register into one that held another value.
-/
import PhaseMachine.Proofs.Flat.Program
import PhaseMachine.Proofs.Game.Life

namespace PhaseMachine

/-! ## The kernel without addresses -/

/-- Storage after an attempt. -/
def Attempt.storage (s : Storage) : Attempt → Storage
  | done e => e.storage
  | skipped _ => s

namespace Instruction

variable {i : Instruction} {s : Storage} {v : Values}

/-- Without an address nothing is loaded from memory, so the cache has no say in what changes. -/
theorem changes_effect_of_absent (ha : i.address = .absent) {a : Action} (h : i.action s = .ok a) (cycle : Int) :
    (a.effect s cycle).changes = a.changes s := by
  cases a with
  | loadCell d address asFlag =>
    unfold action at h
    split at h
    · rw [loadAction, ha] at h
      obtain ⟨d, -, h⟩ := bind_ok h
      obtain ⟨x, -, h⟩ := bind_ok h
      cases h
    · obtain ⟨d, -, h⟩ := bind_ok h
      obtain ⟨c, -, h⟩ := bind_ok h
      cases h
    · obtain ⟨d, -, h⟩ := bind_ok h
      obtain ⟨x, -, h⟩ := bind_ok h
      cases h
    · split at h
      · obtain ⟨d, -, h⟩ := bind_ok h
        obtain ⟨x, -, h⟩ := bind_ok h
        obtain ⟨y, -, h⟩ := bind_ok h
        cases h
      · cases h
  | _ => rfl

/-- An attempt that may pass an instruction over does its deed. -/
theorem attempt_did (hw : i.WellTyped) (ha : i.address = .absent) (hid : i.id.isWritable = true) (s : Storage)
    (cycle : Int) :
    ∃ a, i.attempt false s cycle = .ok a ∧ (a.storage s).values = s.values.did i := by
  unfold attempt execute Values.did
  rcases action_same (s := s) hw with ⟨a, _, hact, hdeed, rfl⟩ | ⟨w, hact, hdeed⟩
  · refine ⟨.done (a.effect s cycle), by rw [hact]; rfl, ?_⟩
    rw [hdeed, ← changes_effect_of_absent ha hact cycle]
    exact (Action.effect_faithful (action_found hact) cycle).leads.replay_eq.symm
  · refine ⟨.skipped (i.malformed w), ?_, by rw [hdeed]; rfl⟩
    rw [hact]
    simp only [Except.map, hid]
    rfl

/-- The value that the kernel gives to the destination of an instruction without an address. -/
def outcome? (i : Instruction) (v : Values) : Option Int :=
  match i.opcode with
  | .load | .mov => (v.operand .operand1 i.operand1).toOption
  | o => do
    let a ← (v.operand .operand1 i.operand1).toOption
    let b ← (v.operand .operand2 i.operand2).toOption
    o.compute? a b

/-- An instruction with a register for its destination gives it its outcome, if there is one. -/
theorem did_of_known (ha : i.address = .absent) {name : String} (hd : i.destination = .given name)
    (hn : name ∈ v.names) : v.did i = (i.outcome? v).elim v (v.setRegister name) := by
  obtain ⟨old, hold⟩ := Values.destined_ok hn
  have hmove : i.moveDeed v = (v.operand .operand1 i.operand1).map fun x => [.register ⟨name, old, x⟩] := by
    unfold moveDeed
    rw [hd, hold]
    rfl
  have hcompute : ∀ f, i.computeDeed f v = (v.operand .operand1 i.operand1).bind fun x =>
      (v.operand .operand2 i.operand2).map fun y => [.register ⟨name, old, f x y⟩] := by
    intro f
    unfold computeDeed
    rw [hd, hold]
    rfl
  have hstore : ∃ w, i.storeDeed v = .error w := by
    unfold storeDeed
    rw [hd, hold, ha]
    exact ⟨.missing .address, rfl⟩
  obtain ⟨w, hw⟩ := hstore
  unfold Values.did deed outcome?
  rcases hx : v.operand .operand1 i.operand1 with flaw | x <;>
    rcases hy : v.operand .operand2 i.operand2 with flaw' | y <;>
    cases i.opcode <;>
    simp [loadDeed, ha, hmove, hcompute, hw, hx, hy, Opcode.operation?, Opcode.compute?, Except.map,
      Except.bind, Except.toOption, Change.replay, Change.apply]

/-- One without does nothing. -/
theorem did_of_unknown (ha : i.address = .absent) (hd : ∀ name, i.destination = .given name → name ∉ v.names) :
    v.did i = v := by
  obtain ⟨w, hw⟩ : ∃ w, v.destined i.destination = .error w := by
    unfold Values.destined
    split
    · next name hn =>
      have hunknown : v.register? name = none := by
        rw [← Option.not_isSome_iff_eq_none, v.isSome_register?]
        exact hd name hn
      exact ⟨.unknownRegister name .destination, by simp [Values.named, hunknown, Except.map]⟩
    · exact ⟨_, rfl⟩
  have hmove : i.moveDeed v = .error w := by unfold moveDeed; rw [hw]; rfl
  have hcompute : ∀ f, i.computeDeed f v = .error w := fun f => by unfold computeDeed; rw [hw]; rfl
  have hstore : i.storeDeed v = .error w := by unfold storeDeed; rw [hw]; rfl
  unfold Values.did deed
  cases i.opcode <;> simp [loadDeed, ha, hmove, hcompute, hstore, Opcode.operation?, Change.replay]

end Instruction

namespace Game

variable {b : RegisterBank} {v : Values} {i : Instruction}

/-! ## Operands and results -/

/-- The game finds the operands that the kernel finds. -/
theorem valueOf?_eq (hv : v.registers = b.toMap) (part : Part) (o : Option Operand) :
    valueOf? b o = (v.operand part o).toOption := by
  cases o with
  | none => rfl
  | some o =>
    cases o with
    | literal x => rfl
    | register name =>
      have hname : v.register? name = b.value? name := by
        unfold Values.register?
        rw [hv, b.lookup_toMap]
      simp only [valueOf?, Values.operand, Values.named, hname]
      cases b.value? name <;> rfl

/-- What a register holds that the instruction is to copy. -/
def copied? (b : RegisterBank) (i : Instruction) : Option Int :=
  match i.opcode, i.operand1 with
  | .load, some (.register source) => b.value? source
  | .mov, some (.register source) => b.value? source
  | _, _ => none

/-- The kernel has the results of the game, and copies besides. -/
theorem outcome?_eq (hv : v.registers = b.toMap) (i : Instruction) :
    i.outcome? v = (result? b i).or (copied? b i) := by
  unfold Instruction.outcome? result? copied?
  rw [← valueOf?_eq hv, ← valueOf?_eq hv]
  cases i.opcode <;> rcases i.operand1 with _ | x | name <;> simp [valueOf?]

/-- What is to be copied is no result of the game. -/
theorem result?_of_copied {x : Int} (h : copied? b i = some x) : result? b i = none := by
  unfold copied? at h
  unfold result?
  split at h
  · next ho hs => rw [ho, hs]
  · next ho hs => rw [ho, hs]
  · cases h

/-- The instruction is to copy a register into one that holds another value. -/
def Copies (b : RegisterBank) (i : Instruction) : Prop :=
  ∃ source destination, (i.opcode = .load ∨ i.opcode = .mov) ∧ i.operand1 = some (.register source) ∧
    i.destination = .given destination ∧ source ∈ b.names ∧ destination ∈ b.names ∧
    b.value? source ≠ b.value? destination

theorem isSome_value? (b : RegisterBank) (name : String) : (b.value? name).isSome ↔ name ∈ b.names := by
  rw [RegisterBank.value?, Option.isSome_map, b.isSome_find?]

theorem copies_iff {name : String} (hd : i.destination = .given name) (hn : name ∈ b.names) :
    Copies b i ↔ ∃ x, copied? b i = some x ∧ b.value? name ≠ some x := by
  unfold copied?
  constructor
  · rintro ⟨source, destination, ho, hs, hd', hsource, -, hne⟩
    obtain rfl := Field.given.inj (hd.symm.trans hd')
    obtain ⟨x, hx⟩ := Option.isSome_iff_exists.1 ((isSome_value? b source).2 hsource)
    refine ⟨x, ?_, fun he => hne (hx.trans he.symm)⟩
    rcases ho with ho | ho <;> rw [ho, hs] <;> exact hx
  · rintro ⟨x, hx, hne⟩
    split at hx
    · next source ho hs =>
      exact ⟨source, name, .inl ho, hs, hd, (isSome_value? b source).1 (hx ▸ rfl), hn, fun he => hne (he ▸ hx)⟩
    · next source ho hs =>
      exact ⟨source, name, .inr ho, hs, hd, (isSome_value? b source).1 (hx ▸ rfl), hn, fun he => hne (he ▸ hx)⟩
    · cases hx

/-! ## Registers after an action -/

/-- Writing shows unless the register holds the value already. -/
theorem toMap_write_eq_iff {name : String} (hn : name ∈ b.names) (x : Int) :
    (b.write name x).toMap = b.toMap ↔ b.value? name = some x := by
  obtain ⟨r, hr⟩ := Option.isSome_iff_exists.1 ((b.isSome_find? name).2 hn)
  have hname := RegisterBank.name_of_find? hr
  have hin : r ∈ b.registers := List.mem_of_find?_eq_some hr
  rw [b.toMap_write, RegisterBank.value?, hr, Option.map_some, Option.some.injEq]
  constructor
  · intro h
    have hpair : (r.name, r.value) ∈ b.toMap := List.mem_map_of_mem hin
    have := List.map_eq_map_iff.1 (h.trans (List.map_id _).symm) _ hpair
    simpa [hname] using this.symm
  · rintro rfl
    refine (List.map_congr_left fun p hp => ?_).trans (List.map_id _)
    obtain ⟨r', hin', rfl⟩ := List.mem_map.1 hp
    by_cases he : r'.name = name
    · obtain rfl := List.inj_on_of_nodup_map b.nodup hin' hin (he.trans hname.symm)
      simp
    · rw [if_neg he, id]

theorem apply_of_known {name : String} (hd : i.destination = .given name) (hne : name ≠ "") :
    apply b i = (result? b i).elim b (b.write name) := by
  unfold apply destinationName?
  rw [hd]
  simp only [hne]
  cases result? b i <;> rfl

/-- Without such a register nothing is written. -/
theorem toMap_apply_of_unknown (hd : ∀ name, i.destination = .given name → name ∉ b.names) :
    (apply b i).toMap = b.toMap := by
  unfold apply
  split
  · next name x hname _ =>
    have hgiven : i.destination = .given name := by
      unfold destinationName? at hname
      split at hname
      · next hg =>
        split at hname
        · cases hname
        · cases hname
          exact hg
      · cases hname
    rw [b.toMap_write]
    refine (List.map_congr_left fun p hp => ?_).trans (List.map_id _)
    have hin : p.1 ∈ b.names := b.names_toMap ▸ List.mem_map_of_mem hp
    have hne : p.1 ≠ name := fun he => hd name hgiven (he ▸ hin)
    rw [if_neg hne, id]
  · rfl

/-- The rules do not fail on a well-typed instruction. -/
theorem misuse?_of_wellTyped {τ : Type} [Quantity τ] (g : Game τ) (hw : i.WellTyped) : g.misuse? i = none := by
  have hforeign : foreignDestination? i.destination = none := by
    have hproper := hw.1
    cases hd : i.destination with
    | foreign w => rw [hd] at hproper; cases hproper
    | _ => rfl
  have hlook : canBeLookedUp i.destination = true := by
    unfold canBeLookedUp
    rw [hforeign]
    rfl
  unfold misuse? chargeMisuse?
  simp [hforeign, hlook]

variable {τ : Type} [Quantity τ] {g : Game τ}

/-- Take a game that has come about and an action with a well-typed instruction that has no address and
an id that can be written, as every text can, and let the action be accepted. On any storage whose
registers hold what those of the game hold, the kernel carries the instruction out or passes it over. The
registers hold the same values afterwards, unless the instruction is to copy a register into one with
another value: then the game, and only the game, leaves the registers as they were. -/
theorem act_registers_eq_iff (hg : g.Reachable) (hw : i.WellTyped) (ha : i.address = .absent)
    (hid : i.id.isWritable = true) (haccepted : (g.chargeFor i).1.isAccepted = true) {s : Storage}
    (hs : s.registers.toMap = g.registers.toMap) (cycle : Int) :
    ∃ a, i.attempt false s cycle = .ok a ∧
      ((a.storage s).registers.toMap = (g.act i).registers.toMap ↔ ¬ Copies g.registers i) ∧
      (Copies g.registers i → (g.act i).registers = g.registers) := by
  obtain ⟨a, hattempt, hvalues⟩ := Instruction.attempt_did hw ha hid s cycle
  refine ⟨a, hattempt, ?_⟩
  have hkernel : (a.storage s).registers.toMap = (s.values.did i).registers := congrArg Values.registers hvalues
  rw [hkernel, registers_act_of_accepted (g.misuse?_of_wellTyped hw) haccepted]
  have hnames : s.values.names = g.registers.names := by
    unfold Values.names
    rw [show s.values.registers = g.registers.toMap from hs, RegisterBank.names_toMap]
  by_cases hknown : ∃ name, i.destination = .given name ∧ name ∈ g.registers.names
  · obtain ⟨name, hd, hn⟩ := hknown
    have hne : name ≠ "" := by
      rintro rfl
      rw [hg.names] at hn
      simp at hn
    have hset : ∀ x, (s.values.setRegister name x).registers = (g.registers.write name x).toMap := by
      intro x
      rw [RegisterBank.toMap_write, ← hs]
      rfl
    rw [Instruction.did_of_known ha hd (hnames ▸ hn), outcome?_eq (v := s.values) hs, apply_of_known hd hne,
      copies_iff hd hn]
    cases hc : copied? g.registers i with
    | none =>
      have hsame : ∀ r : Option Int, (r.elim s.values (s.values.setRegister name)).registers =
          (r.elim g.registers (g.registers.write name)).toMap := by
        intro r
        cases r with
        | none => exact hs
        | some x => exact hset x
      simp [hsame]
    | some x =>
      rw [result?_of_copied hc]
      refine ⟨?_, fun _ => rfl⟩
      show (s.values.setRegister name x).registers = g.registers.toMap ↔ _
      rw [hset, toMap_write_eq_iff hn]
      simp
  · have hunknown : ∀ name, i.destination = .given name → name ∉ g.registers.names :=
      fun name hd hn => hknown ⟨name, hd, hn⟩
    have hnot : ¬ Copies g.registers i := by
      rintro ⟨source, destination, -, -, hd, -, hn, -⟩
      exact hunknown destination hd hn
    rw [Instruction.did_of_unknown ha (hnames ▸ hunknown), toMap_apply_of_unknown hunknown]
    exact ⟨iff_of_true hs hnot, fun h => absurd h hnot⟩

/-! ## A game and a storage -/

/-- A game at the first level, after the register of a name was set to 5. -/
def withFive (name : String) : Game Rat :=
  (make 100 {}).after [.start 1,
    .act { opcode := .mov, operand1 := some (.literal 5), destination := .given name }]

/-- Storage with the registers of a game. -/
def beside (g : Game Rat) : Storage :=
  { (Machine.small false false).storage with registers := g.registers }

/-- Adding a register to itself, over a third one. -/
theorem act_registers_eq_iff_sum :
    let g := withFive "R1"
    let i : Instruction := {
      opcode := .add, operand1 := some (.register "R1"), operand2 := some (.register "R1")
      destination := .given "R3" }
    g.Reachable ∧ i.WellTyped ∧ i.id.isWritable = true ∧ (g.chargeFor i).1.isAccepted = true ∧
    ¬ Copies g.registers i ∧
    ∃ a, i.attempt false (beside g) 0 = .ok a ∧
      (a.storage (beside g)).registers.toMap = [("R1", 5), ("R2", 0), ("R3", 10)] ∧
      (g.act i).registers.toMap = [("R1", 5), ("R2", 0), ("R3", 10)] := by
  intro g i
  have hg : g.Reachable := (Reachable.make 100 {}).after _
  have haccepted : (g.chargeFor i).1.isAccepted = true := by decide +kernel
  have hcopies : ¬ Copies g.registers i := by
    rintro ⟨_, _, ho | ho, -⟩ <;> cases ho
  obtain ⟨a, hattempt, hagree, -⟩ :=
    act_registers_eq_iff hg (i := i) (by decide) rfl (by decide) haccepted (s := beside g) rfl 0
  have hgame : (g.act i).registers.toMap = [("R1", 5), ("R2", 0), ("R3", 10)] := by decide +kernel
  exact ⟨hg, by decide, by decide, haccepted, hcopies, a, hattempt, (hagree.2 hcopies).trans hgame, hgame⟩

/-- A move from one register to another: the kernel makes it, and the game takes the charge for it and
leaves the registers as they are. -/
theorem act_keeps_registers_move :
    let g := withFive "R2"
    let i : Instruction := { opcode := .mov, operand1 := some (.register "R2"), destination := .given "R1" }
    g.Reachable ∧ i.WellTyped ∧ i.address = .absent ∧ (g.chargeFor i).1.isAccepted = true ∧
    (g.act i).cycle = g.cycle + 1 ∧
    (g.act i).registers.toMap = [("R1", 0), ("R2", 5), ("R3", 0)] ∧
    ∃ a, i.attempt false (beside g) 0 = .ok a ∧
      (a.storage (beside g)).registers.toMap = [("R1", 5), ("R2", 5), ("R3", 0)] := by
  intro g i
  exact ⟨(Reachable.make 100 {}).after _, by decide, rfl, by decide +kernel, by decide +kernel,
    by decide +kernel, _, rfl, by decide +kernel⟩

end Game

end PhaseMachine
