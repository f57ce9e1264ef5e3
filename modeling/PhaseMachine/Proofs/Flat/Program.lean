/-
What a whole program does to plain values. Its instructions are carried out one after another: each sets the
program counter to the place after it and then does its deed. A machine that a program is loaded into, and
that has nothing to fail at, holds these values as soon as it has taken four steps for each instruction,
and keeps them. What no instruction of a program names is the same at every moment of a run.
-/
import PhaseMachine.Proofs.Flat.Refinement
import PhaseMachine.Proofs.Machine.Steps

namespace PhaseMachine

/-! ## Deeds -/

namespace Values

variable {v : Values}

/-- The values after the deed of an instruction, the same if there is something wrong with it. -/
def did (v : Values) (i : Instruction) : Values :=
  match i.deed v with
  | .ok changes => Change.replay v changes
  | .error _ => v

/-- The values after a program whose first instruction is at a place. -/
def ran (v : Values) (place : Nat) : Program → Values
  | [] => v
  | i :: program => ((v.setRegister "PC" ↑(place + 1)).did i).ran (place + 1) program

theorem names_replay (v : Values) (changes : List Change) : (Change.replay v changes).names = v.names := by
  induction changes generalizing v with
  | nil => rfl
  | cons c changes ih =>
    refine (ih (c.apply v)).trans ?_
    cases c with
    | register r => exact v.names_setRegister r.name r.new
    | memory c => exact v.names_setCell c.address c.new

@[simp]
theorem names_did (v : Values) (i : Instruction) : (v.did i).names = v.names := by
  unfold did
  split
  · exact v.names_replay _
  · rfl

theorem destined_ok {name : String} (hn : name ∈ v.names) :
    ∃ old, v.destined (.given name) = .ok (name, old) := by
  obtain ⟨old, hold⟩ := Option.isSome_iff_exists.1 ((v.isSome_register? name).2 hn)
  simp only [destined, named, hold]
  exact ⟨old, rfl⟩

section

variable {destination : String} {x : Int} {description id : Value}

/-- A load without an address sets the register to its operand. -/
theorem did_load_literal (hd : destination ∈ v.names) :
    v.did { opcode := .load, operand1 := some (.literal x), destination := .given destination, description, id } =
      v.setRegister destination x := by
  obtain ⟨old, hold⟩ := destined_ok hd
  simp only [did, Instruction.deed, Instruction.loadDeed, Instruction.moveDeed, hold]
  rfl

theorem did_mov_literal (hd : destination ∈ v.names) :
    v.did { opcode := .mov, operand1 := some (.literal x), destination := .given destination, description, id } =
      v.setRegister destination x := by
  obtain ⟨old, hold⟩ := destined_ok hd
  simp only [did, Instruction.deed, Instruction.moveDeed, hold]
  rfl

theorem did_load_cell {address : Int} (hd : destination ∈ v.names) (hx : v.cell? address = some x) :
    v.did { opcode := .load, destination := .given destination, address := .given address, description, id } =
      v.setRegister destination x := by
  obtain ⟨old, hold⟩ := destined_ok hd
  simp only [did, Instruction.deed, Instruction.loadDeed, addressed, hold, hx]
  rfl

theorem did_store {address : Int} (hx : v.register? destination = some x) (ha : (v.cell? address).isSome) :
    v.did { opcode := .store, destination := .given destination, address := .given address, description, id } =
      v.setCell address x := by
  obtain ⟨old, hold⟩ := Option.isSome_iff_exists.1 ha
  simp only [did, Instruction.deed, Instruction.storeDeed, destined, named, addressed, hx, hold]
  rfl

theorem did_compute {opcode : Opcode} {f : Int → Int → Int} {first second : String} {y : Int}
    (ho : opcode.operation? = some f) (hd : destination ∈ v.names) (hx : v.register? first = some x)
    (hy : v.register? second = some y) :
    v.did
        { opcode, operand1 := some (.register first), operand2 := some (.register second),
          destination := .given destination, description, id } =
      v.setRegister destination (f x y) := by
  obtain ⟨old, hold⟩ := destined_ok hd
  cases opcode with
  | load => cases ho
  | store => cases ho
  | mov => cases ho
  | _ =>
    simp only [did, Instruction.deed, ho, Instruction.computeDeed, operand, named, hold, hx, hy]
    rfl

end

end Values

namespace FlatMachine

variable {f : FlatMachine} {i : Instruction}

/-! ## Steps that do not fail -/

/-- An instruction that is tried without a failure does its deed. -/
theorem did_of_tried {strict : Bool} {v : Values} {changes : List Change}
    (h : i.tried strict v = .ok changes) : v.did i = Change.replay v changes := by
  unfold Instruction.tried at h
  unfold Values.did
  cases hd : i.deed v with
  | ok c =>
    rw [hd] at h
    cases h
    rfl
  | error w =>
    rw [hd] at h
    cases strict with
    | true => cases h
    | false => cases h; rfl

theorem step_of_none (hi : f.program[f.index]? = none) : f.step = (.ok false, f) := by
  unfold step
  rw [hi]

/-- A step that does not fail does the work of its stage and goes on to the next one. -/
theorem step_of_some (hi : f.program[f.index]? = some i) (hf : ∀ x, f.step.1 ≠ .error x) :
    ∃ changes, f.work i = .ok changes ∧ f.step.2.values = Change.replay f.values changes ∧
      f.step.2.program = f.program ∧ f.step.2.stage = f.stage.next?.getD .fetch ∧
      f.step.2.index = if f.stage = .store then f.index + 1 else f.index := by
  unfold step at hf ⊢
  rw [hi] at hf ⊢
  dsimp only at hf ⊢
  cases hw : f.work i with
  | error x =>
    rw [hw] at hf
    exact absurd rfl (hf x)
  | ok changes =>
    refine ⟨changes, rfl, ?_⟩
    unfold proceed carry
    cases f.stage <;> exact ⟨rfl, rfl, rfl, rfl⟩

/-- Four steps carry an instruction out. -/
theorem after_four (hs : f.stage = .fetch) (hi : f.program[f.index]? = some i)
    (hf : ∀ n x, (f.after n).step.1 ≠ .error x) :
    (f.after 4).stage = .fetch ∧ (f.after 4).index = f.index + 1 ∧
      (f.after 4).values = (f.values.setRegister "PC" ↑(f.index + 1)).did i := by
  obtain ⟨fetched, hw1, hv1, hp1, hs1, hi1⟩ := step_of_some hi (hf 0)
  rw [hs] at hs1 hi1
  have at1 : f.step.2.program[f.step.2.index]? = some i := by rw [hp1, hi1]; exact hi
  obtain ⟨decoded, hw2, hv2, hp2, hs2, hi2⟩ := step_of_some at1 (hf 1)
  rw [hs1] at hs2 hi2
  have at2 : f.step.2.step.2.program[f.step.2.step.2.index]? = some i := by rw [hp2, hi2]; exact at1
  obtain ⟨executed, hw3, hv3, hp3, hs3, hi3⟩ := step_of_some at2 (hf 2)
  rw [hs2] at hs3 hi3
  have at3 : f.step.2.step.2.step.2.program[f.step.2.step.2.step.2.index]? = some i := by
    rw [hp3, hi3]
    exact at2
  obtain ⟨stored, hw4, hv4, hp4, hs4, hi4⟩ := step_of_some at3 (hf 3)
  rw [hs3] at hs4 hi4
  rw [work, hs] at hw1
  rw [work, hs1] at hw2
  rw [work, hs2] at hw3
  rw [work, hs3] at hw4
  cases hw1
  cases hw2
  cases hw4
  refine ⟨hs4, ?_, ?_⟩
  · show f.step.2.step.2.step.2.step.2.index = f.index + 1
    rw [hi4, hi3, hi2, hi1]
    rfl
  · show f.step.2.step.2.step.2.step.2.values = _
    rw [hv4, hv3, ← did_of_tried hw3, hv2, hv1]
    rfl

/-- The rest of a program is carried out with four steps for each instruction. -/
theorem after_rest (hs : f.stage = .fetch) (hf : ∀ n x, (f.after n).step.1 ≠ .error x) {rest : Program}
    (hrest : f.program.drop f.index = rest) :
    (f.after (4 * rest.length)).values = f.values.ran f.index rest ∧
      (f.after (4 * rest.length)).index = f.index + rest.length := by
  induction rest generalizing f with
  | nil => exact ⟨rfl, rfl⟩
  | cons i rest ih =>
    have hi : f.program[f.index]? = some i := by
      rw [← List.head?_drop, hrest]
      rfl
    obtain ⟨hstage, hindex, hvalues⟩ := after_four hs hi hf
    have htail : (f.after 4).program.drop (f.after 4).index = rest := by
      rw [program_after, hindex, ← List.tail_drop, hrest]
      rfl
    obtain ⟨hv, hn⟩ := ih hstage (fun n x => by rw [← after_add]; exact hf (4 + n) x) htail
    rw [List.length_cons, Nat.mul_succ, Nat.add_comm, after_add]
    refine ⟨?_, ?_⟩
    · rw [hv, hvalues, hindex]
      rfl
    · rw [hn, hindex]
      omega

theorem after_of_none (hi : f.program[f.index]? = none) (n : Nat) : f.after n = f := by
  induction n with
  | zero => rfl
  | succ n ih =>
    show f.step.2.after n = f
    rw [step_of_none hi]
    exact ih

end FlatMachine

/-! ## What a program does not name -/

namespace Instruction

/-- Whether carrying out the instruction may set the register of a name. -/
def Sets (i : Instruction) (name : String) : Prop :=
  i.opcode ≠ .store ∧ i.destination = .given name

/-- Whether carrying out the instruction may write the cell at an address. -/
def Writes (i : Instruction) (address : Int) : Prop :=
  i.opcode = .store ∧ i.address = .given address

/-- A change that the instruction may make. -/
def Allows (i : Instruction) : Change → Prop
  | .register c => i.Sets c.name
  | .memory c => i.Writes c.address

variable {i : Instruction} {v : Values} {changes : List Change}

theorem destined_eq {f : Field String} {name : String} {x : Int} (h : v.destined f = .ok (name, x)) :
    f = .given name := by
  cases f with
  | absent => cases h
  | foreign w => cases h
  | given n =>
    simp only [Values.destined] at h
    cases hn : v.named .destination n with
    | error w => rw [hn] at h; cases h
    | ok y => rw [hn] at h; cases h; rfl

theorem addressed_eq {f : Field Int} {a x : Int} (h : v.addressed f = .ok (a, x)) : f = .given a := by
  cases f with
  | absent => cases h
  | foreign w => cases h
  | given b =>
    simp only [Values.addressed] at h
    split at h
    · cases h; rfl
    · cases h

theorem moveDeed_sets (h : i.moveDeed v = .ok changes) :
    ∃ c : RegisterChange, changes = [.register c] ∧ i.destination = .given c.name := by
  obtain ⟨⟨name, old⟩, hd, h⟩ := bind_ok h
  obtain ⟨x, -, h⟩ := bind_ok h
  cases h
  exact ⟨_, rfl, destined_eq hd⟩

theorem loadDeed_sets (h : i.loadDeed v = .ok changes) :
    ∃ c : RegisterChange, changes = [.register c] ∧ i.destination = .given c.name := by
  unfold loadDeed at h
  split at h
  · exact moveDeed_sets h
  · obtain ⟨⟨name, old⟩, hd, h⟩ := bind_ok h
    obtain ⟨⟨a, x⟩, -, h⟩ := bind_ok h
    cases h
    exact ⟨_, rfl, destined_eq hd⟩

theorem storeDeed_writes (h : i.storeDeed v = .ok changes) :
    ∃ c : MemoryChange, changes = [.memory c] ∧ i.address = .given c.address := by
  obtain ⟨⟨name, x⟩, -, h⟩ := bind_ok h
  obtain ⟨⟨a, old⟩, ha, h⟩ := bind_ok h
  cases h
  exact ⟨_, rfl, addressed_eq ha⟩

theorem computeDeed_sets {f : Int → Int → Int} (h : i.computeDeed f v = .ok changes) :
    ∃ c : RegisterChange, changes = [.register c] ∧ i.destination = .given c.name := by
  obtain ⟨⟨name, old⟩, hd, h⟩ := bind_ok h
  obtain ⟨x, -, h⟩ := bind_ok h
  obtain ⟨y, -, h⟩ := bind_ok h
  cases h
  exact ⟨_, rfl, destined_eq hd⟩

/-- An instruction changes nothing but the register or the cell that it names. -/
theorem deed_allowed (h : i.deed v = .ok changes) : ∀ c ∈ changes, i.Allows c := by
  have hset : i.opcode ≠ .store →
      (∃ c : RegisterChange, changes = [.register c] ∧ i.destination = .given c.name) →
      ∀ c ∈ changes, i.Allows c := by
    rintro ho ⟨c, rfl, hd⟩ c' hc'
    rw [List.mem_singleton.1 hc']
    exact ⟨ho, hd⟩
  unfold deed at h
  split at h
  · next ho => exact hset (by simp [ho]) (loadDeed_sets h)
  · next ho =>
    obtain ⟨c, rfl, ha⟩ := storeDeed_writes h
    intro c' hc'
    rw [List.mem_singleton.1 hc']
    exact ⟨ho, ha⟩
  · next ho => exact hset (by simp [ho]) (moveDeed_sets h)
  · next hstore _ =>
    split at h
    · exact hset hstore (computeDeed_sets h)
    · cases h
      exact fun c hc => absurd hc List.not_mem_nil

theorem tried_allowed {strict : Bool} (h : i.tried strict v = .ok changes) : ∀ c ∈ changes, i.Allows c := by
  unfold tried at h
  cases hd : i.deed v with
  | ok c =>
    rw [hd] at h
    cases h
    exact deed_allowed hd
  | error w =>
    rw [hd] at h
    cases strict with
    | true => cases h
    | false =>
      cases h
      exact fun c hc => absurd hc List.not_mem_nil

end Instruction

/-- The same value in every register and cell that the program does not name, the program counter
apart. -/
structure Values.Spares (program : Program) (v w : Values) : Prop where
  register : ∀ name, name ≠ "PC" → (∀ i ∈ program, ¬ i.Sets name) → w.register? name = v.register? name
  cell : ∀ address, (∀ i ∈ program, ¬ i.Writes address) → w.cell? address = v.cell? address

namespace Values.Spares

variable {program : Program} {u v w : Values}

theorem refl (program : Program) (v : Values) : v.Spares program v :=
  ⟨fun _ _ _ => rfl, fun _ _ => rfl⟩

theorem trans (h1 : u.Spares program v) (h2 : v.Spares program w) : u.Spares program w :=
  ⟨fun name hn hs => (h2.register name hn hs).trans (h1.register name hn hs),
    fun address hw => (h2.cell address hw).trans (h1.cell address hw)⟩

theorem apply {c : Change} (h : (∃ r, c = .register r ∧ r.name = "PC") ∨ ∃ i ∈ program, i.Allows c) :
    v.Spares program (c.apply v) := by
  cases c with
  | register r =>
    refine ⟨fun name hpc hs => ?_, fun address _ => rfl⟩
    have hne : r.name ≠ name := by
      rintro rfl
      rcases h with ⟨r', hr, hname⟩ | ⟨i, hi, hset⟩
      · cases hr
        exact hpc hname
      · exact hs i hi hset
    show (v.setRegister r.name r.new).register? name = _
    rw [register?_setRegister, if_neg hne]
  | memory m =>
    refine ⟨fun name _ _ => register?_setCell .., fun address hw => ?_⟩
    have hne : m.address ≠ address := by
      rintro rfl
      rcases h with ⟨r, hr, -⟩ | ⟨i, hi, hwrite⟩
      · cases hr
      · exact hw i hi hwrite
    show (v.setCell m.address m.new).cell? address = _
    rw [cell?_setCell, if_neg hne]

theorem replay {changes : List Change}
    (h : ∀ c ∈ changes, (∃ r, c = .register r ∧ r.name = "PC") ∨ ∃ i ∈ program, i.Allows c) :
    v.Spares program (Change.replay v changes) := by
  induction changes generalizing v with
  | nil => exact .refl program v
  | cons c changes ih =>
    refine (apply (h c (List.mem_cons_self ..))).trans (ih fun c' hc' => ?_)
    exact h c' (List.mem_cons_of_mem c hc')

end Values.Spares

/-! ## Machines -/

namespace Machine

variable {τ : Type} {m : Machine τ} {program : Program}

/-- The work of a stage sets the program counter, or changes what its instruction names. -/
theorem work_allowed (hm : m.Sound) {i : Instruction} (hw : i.WellTyped) {e : Effect}
    (h : m.enter.work i = .ok e) :
    ∀ c ∈ e.changes, (∃ r, c = .register r ∧ r.name = "PC") ∨ i.Allows c := by
  intro c hc
  unfold work at h
  split at h
  · cases h
    exact .inl ⟨_, List.mem_singleton.1 hc, rfl⟩
  · cases h
    cases hc
  · have hattempt := Instruction.attempt_tried hw hm.roomy_storage hm.coherent_storage m.strict m.enter.cycle
    rw [show m.enter.strict = m.strict from rfl, show m.enter.storage = m.storage from rfl] at h
    rcases hattempt with ⟨e', ha, ht⟩ | ⟨x, ha, -⟩ | ⟨x, ha, -⟩ | ha
    · rw [ha] at h
      cases h
      exact .inr (Instruction.tried_allowed ht c hc)
    · rw [ha] at h
      cases h
      cases hc
    · rw [ha] at h; cases h
    · rw [ha] at h; cases h
  · cases h
    cases hc

variable [Quantity τ] {ops : List (Op τ)}

theorem spares_step (hm : m.Sound) (hp : ∀ i ∈ m.program, i.WellTyped) :
    m.storage.values.Spares m.program m.step.machine.storage.values := by
  rcases m.step_effect with ⟨h, -⟩ | ⟨i, e, hi, hw, h, -⟩
  · rw [h]
    exact .refl ..
  · have hmem := List.mem_of_getElem? hi
    have he := (work_faithful (m := m.enter) (hm.mem_names (by decide)) hw).leads.replay_eq
    rw [h, ← he]
    refine .replay fun c hc => ?_
    rcases work_allowed hm (hp i hmem) hw c hc with hpc | hallows
    · exact .inl hpc
    · exact .inr ⟨i, hmem, hallows⟩

/-- At every moment of a run, what the program does not name is as it was when it was loaded. -/
theorem spares_run (hm : m.Reachable) (hp : ∀ i ∈ program, i.WellTyped)
    (ho : ∀ op ∈ ops, op.restarts = false) :
    m.storage.values.Spares program ((m.load program).after ops).storage.values := by
  have hkeeps : ∀ (now : Machine τ) (op : Op τ),
      (now.Sound ∧ now.program = program ∧ m.storage.values.Spares program now.storage.values) →
      op.restarts = false → (now.perform op).Sound ∧ (now.perform op).program = program ∧
        m.storage.values.Spares program (now.perform op).storage.values := by
    rintro now op ⟨hsound, rfl, hspares⟩ hop
    refine ⟨hsound.perform op, now.program_perform hop, ?_⟩
    rcases Op.step_or_between hop with rfl | hb
    · exact hspares.trans (spares_step hsound hp)
    · rw [(now.still_between hb).values]
      exact hspares
  have hload : m.storage.values.Spares program (m.load program).storage.values := by
    rw [(m.still_load program).values]
    exact .refl ..
  exact (after_of_perform hkeeps ⟨(hm.perform (.load program)).sound, rfl, hload⟩ ho).2.2

/-- With nothing to fail at, the flat machine does not fail either. -/
theorem Faultless.flat (hf : (m.load program).Faultless) (hm : m.Reachable) (n : Nat) (x : Malformed) :
    ((m.flat program).after n).step.1 ≠ .error x := by
  have hload : (m.load program).Sound := (hm.perform (.load program)).sound
  have hp : ∀ i ∈ program, i.WellTyped := fun i hi => (hf i hi).1
  have ho : ∀ op ∈ List.replicate n (.step : Op τ), op.restarts = false := fun _ => not_restarts_of_mem
  have hcount : (m.flat program).Counted := rfl
  obtain ⟨-, hagree⟩ := agrees_after hload (m.agrees_load program) hcount hp ho fun u => hf.outcomes hload ho _
  have hnow := hf.after hload ho
  rw [stepCount_replicate] at hagree
  obtain ⟨hend, -⟩ := agrees_step ((hm.perform (.load program)).after _).sound hagree (hcount.after n)
    (by rwa [FlatMachine.program_after]) fun u => hnow.step _
  intro hx
  rw [hx] at hend
  exact hnow.step _ hend

/-- A program with nothing to fail at is carried out with four steps for each instruction, whatever
happens between them, and then each step finds it over and the values stay. -/
theorem Faultless.run (hf : (m.load program).Faultless) (hm : m.Reachable)
    (ho : ∀ op ∈ ops, op.restarts = false) :
    (m.load program).outcomes ops =
        List.replicate (min (stepCount ops) (4 * program.length)) .stepped ++
          List.replicate (stepCount ops - 4 * program.length) .finished ∧
      (4 * program.length ≤ stepCount ops →
        ((m.load program).after ops).storage.values = m.storage.values.ran 0 program) := by
  have hload : (m.load program).Sound := (hm.perform (.load program)).sound
  have hp : ∀ i ∈ program, i.WellTyped := fun i hi => (hf i hi).1
  refine ⟨((m.onTrack_load program).outcomes_eq hp ho (hf.outcomes hload ho)).1, fun hsteps => ?_⟩
  obtain ⟨hvalues, hindex⟩ : ((m.flat program).after (4 * program.length)).values =
        m.storage.values.ran 0 program ∧
      ((m.flat program).after (4 * program.length)).index = 0 + program.length :=
    FlatMachine.after_rest (f := m.flat program) rfl (hf.flat hm) rfl
  have hend : ((m.flat program).after (4 * program.length)).program[((m.flat program).after
      (4 * program.length)).index]? = none := by
    rw [hindex, FlatMachine.program_after, List.getElem?_eq_none_iff, Nat.zero_add]
    exact le_refl _
  obtain ⟨-, hagree⟩ := agrees_after hload (m.agrees_load program) rfl hp ho fun u => hf.outcomes hload ho _
  -- the steps beyond the last one of the program change nothing
  rw [show ((m.load program).after ops).storage.values = _ from hagree.values,
    ← Nat.add_sub_cancel' hsteps, FlatMachine.after_add, FlatMachine.after_of_none hend, hvalues]

end Machine

end PhaseMachine
