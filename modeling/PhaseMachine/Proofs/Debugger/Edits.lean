/-
The breakpoints of a debugger as a set. They are kept in a list, and only adding looks for an equal one, so
an update to a breakpoint that is there already makes a second copy of it. Without such an update the list
never has two equal breakpoints. Removing takes one copy away, so a breakpoint that was there once is gone
and stops no run.
-/
import PhaseMachine.Proofs.Debugger.Calls

namespace PhaseMachine.Debugger

variable {τ : Type}

/-! ## Copies -/

/-- An update to a breakpoint that is there already, beside the old one. -/
def Edit.Doubles (breakpoints : List Breakpoint) : Edit → Prop
  | .update old new => old ∈ breakpoints ∧ new ∈ breakpoints ∧ old ≠ new
  | _ => False

/-- An edit that puts a breakpoint in. -/
def Edit.Brings (b : Breakpoint) : Edit → Prop
  | .add c => c = b
  | .update _ new => new = b
  | .remove _ => False

/-- Removing takes one copy away. -/
theorem not_mem_remove_iff (d : Debugger τ) (b : Breakpoint) :
    b ∉ (d.remove b).breakpoints ↔ d.breakpoints.count b ≤ 1 := by
  show b ∉ d.breakpoints.erase b ↔ _
  rw [← List.count_eq_zero, List.count_erase_self]
  omega

/-- Updating exchanges one copy of the old breakpoint for one of the new. -/
theorem count_update (d : Debugger τ) {old new : Breakpoint} (h : old ∈ d.breakpoints) (hne : old ≠ new) :
    (d.update old new).breakpoints.count old = d.breakpoints.count old - 1 ∧
      (d.update old new).breakpoints.count new = d.breakpoints.count new + 1 ∧
      ∀ b, b ≠ old → b ≠ new → (d.update old new).breakpoints.count b = d.breakpoints.count b := by
  unfold update
  refine ⟨?_, ?_, ?_⟩
  · simp [List.count_replace, h, Ne.symm hne]
  · simp [List.count_replace, h, hne]
  · intro b hold hnew
    simp [List.count_replace, Ne.symm hold, Ne.symm hnew]

/-- An update of one breakpoint among different ones leaves them different unless the new one is there. -/
theorem nodup_update_iff {d : Debugger τ} (h : d.breakpoints.Nodup) {old new : Breakpoint}
    (hmem : old ∈ d.breakpoints) (hne : old ≠ new) :
    (d.update old new).breakpoints.Nodup ↔ new ∉ d.breakpoints := by
  obtain ⟨hold, hnew, hother⟩ := d.count_update hmem hne
  have hle := List.nodup_iff_count_le_one.1 h
  rw [← List.count_eq_zero]
  constructor
  · intro hn
    have hone := List.nodup_iff_count_le_one.1 hn new
    omega
  · intro habsent
    apply List.nodup_iff_count_le_one.2
    intro b
    have hb := hle b
    by_cases hbo : b = old
    · subst hbo
      omega
    · by_cases hbn : b = new
      · subst hbn
        omega
      · rw [hother b hbo hbn]
        exact hb

theorem update_self (d : Debugger τ) (b : Breakpoint) :
    (d.update b b).breakpoints.Perm d.breakpoints := by
  rw [List.perm_iff_count]
  intro c
  unfold update
  simp [List.count_replace]

/-- Of different breakpoints an edit makes different ones, unless it doubles one. -/
theorem nodup_edited_iff {d : Debugger τ} (h : d.breakpoints.Nodup) (e : Edit) :
    (d.edited e).breakpoints.Nodup ↔ ¬ e.Doubles d.breakpoints := by
  cases e with
  | add b =>
    refine iff_of_true ?_ fun hf => hf
    show (d.add b).breakpoints.Nodup
    unfold add
    split
    · exact h
    · rename_i hb
      rw [← List.concat_eq_append]
      exact h.concat hb
  | remove b => exact iff_of_true (h.erase b) fun hf => hf
  | update old new =>
    show (d.update old new).breakpoints.Nodup ↔ ¬ (old ∈ d.breakpoints ∧ new ∈ d.breakpoints ∧ old ≠ new)
    by_cases hmem : old ∈ d.breakpoints
    · by_cases hne : old = new
      · subst hne
        exact iff_of_true ((d.update_self old).nodup_iff.2 h) fun hf => hf.2.2 rfl
      · rw [nodup_update_iff h hmem hne]
        simp [hmem, hne]
    · refine iff_of_true ?_ fun hf => hmem hf.1
      unfold update
      rw [List.replace_of_not_mem hmem]
      exact h

/-- A breakpoint that is not there comes in by an edit that puts it in. -/
theorem not_mem_edited {d : Debugger τ} {b : Breakpoint} (h : b ∉ d.breakpoints) {e : Edit} (he : ¬ e.Brings b) :
    b ∉ (d.edited e).breakpoints := by
  cases e with
  | add c =>
    show b ∉ (d.add c).breakpoints
    unfold add
    split
    · exact h
    · simpa [h] using Ne.symm he
  | remove c => exact fun hb => h (List.mem_of_mem_erase hb)
  | update old new =>
    have hne : new ≠ b := he
    show b ∉ d.breakpoints.replace old new
    rw [← List.count_eq_zero] at h ⊢
    simp [List.count_replace, h, hne]

variable [Quantity τ]

theorem not_mem_afterCalls {d : Debugger τ} {b : Breakpoint} (h : b ∉ d.breakpoints) {calls : List (Call τ)}
    (hcalls : ∀ e, .edit e ∈ calls → ¬ e.Brings b) : b ∉ (d.afterCalls calls).breakpoints := by
  induction calls generalizing d with
  | nil => exact h
  | cons c calls ih =>
    refine ih ?_ fun e he => hcalls e (List.mem_cons_of_mem _ he)
    rcases d.breakpoints_call c with hsame | ⟨e, rfl, he⟩
    · rw [hsame]; exact h
    · rw [he]; exact not_mem_edited h (hcalls e (List.mem_cons_self ..))

/-! ## What a run may stop at -/

/-- A run that returns reached a limit, met a breakpoint or came to the end of the program. -/
theorem stops_of_ok {d : Debugger τ} (hm : d.machine.Reachable) {limit : Option Int} {n : Nat}
    (h : (d.run limit).result = .ok n) : d.Stops limit n := by
  rcases concludes_run hm limit with ⟨k, hends⟩ | ⟨k, f, hfails⟩
  · obtain rfl : n = k := Except.ok.inj (h.symm.trans hends.result)
    exact hends.least.1
  · have := h.symm.trans hfails.result
    cases this

/-- What stops a run after `n` phases, if a breakpoint does not count. -/
def StopsWithout (d : Debugger τ) (b : Breakpoint) (limit : Option Int) (n : Nat) : Prop :=
  (∃ most ∈ limit, most ≤ (n : Int)) ∨ (d.machine.steps n).nextPhase = .idle ∨
    ∃ r ∈ (d.machine.steps n).history.getLast?, ∃ c ∈ d.breakpoints, c ≠ b ∧ c.Met (d.machine.steps n) r

/-- A breakpoint that is not there stops no run. -/
theorem stopsWithout_of_not_mem {d : Debugger τ} (hm : d.machine.Reachable) {b : Breakpoint}
    (hb : b ∉ d.breakpoints) {limit : Option Int} {n : Nat} (h : (d.run limit).result = .ok n) :
    d.StopsWithout b limit n := by
  rcases stops_of_ok hm h with (hlimit | ⟨-, r, hr, c, hc, hmet⟩) | hidle
  · exact .inl hlimit
  · refine .inr (.inr ⟨r, hr, c, hc, ?_, hmet⟩)
    rintro rfl
    exact hb hc
  · exact .inr (.inl hidle)

/-! ## Any calls -/

/-- Breakpoints that are different ones stay so through calls exactly if none of these doubles one. -/
theorem nodup_afterCalls_iff {d : Debugger τ} (h : d.breakpoints.Nodup) (calls : List (Call τ)) :
    (∀ before later, calls = before ++ later → (d.afterCalls before).breakpoints.Nodup) ↔
      ∀ before e later, calls = before ++ .edit e :: later →
        ¬ e.Doubles (d.afterCalls before).breakpoints := by
  constructor
  · rintro hall before e later rfl
    rw [← nodup_edited_iff (hall before _ rfl)]
    have hnext := hall (before ++ [.edit e]) later (by simp)
    rw [afterCalls_concat] at hnext
    exact hnext
  · intro hno before
    induction before using List.reverseRecOn with
    | nil => intro later _; exact h
    | append_singleton before c ih =>
      intro later hcalls
      have hn := ih (c :: later) (by simp [hcalls])
      rw [afterCalls_concat]
      rcases breakpoints_call (d.afterCalls before) c with hsame | ⟨e, rfl, he⟩
      · rw [hsame]; exact hn
      · rw [he, nodup_edited_iff hn]
        exact hno before e later (by simp [hcalls])

/-- Take any calls on a debugger. Its breakpoints are different ones all along exactly if no update is to
one that is there already, beside the old one. Removing a breakpoint takes it away exactly if it is there
once at most, and then no run stops for it until it is put in again. Updating a breakpoint to another takes
the old one away exactly if it was there once, and has the new one there once exactly if it was not there. -/
theorem breakpoints_distinct_iff {m : Machine τ} (hm : m.Reachable) (calls : List (Call τ)) :
    let d := (attach m).afterCalls calls
    ((∀ before later, calls = before ++ later → ((attach m).afterCalls before).breakpoints.Nodup) ↔
      ∀ before e later, calls = before ++ .edit e :: later →
        ¬ e.Doubles ((attach m).afterCalls before).breakpoints) ∧
    (∀ b, (b ∉ (d.remove b).breakpoints ↔ d.breakpoints.count b ≤ 1) ∧
      (d.breakpoints.count b ≤ 1 → ∀ later, (∀ e, .edit e ∈ later → ¬ e.Brings b) →
        b ∉ ((d.remove b).afterCalls later).breakpoints ∧
          ∀ limit n, (((d.remove b).afterCalls later).run limit).result = .ok n →
            ((d.remove b).afterCalls later).StopsWithout b limit n)) ∧
    ∀ old new, old ∈ d.breakpoints → old ≠ new →
      (old ∉ (d.update old new).breakpoints ↔ d.breakpoints.count old = 1) ∧
      ((d.update old new).breakpoints.count new = 1 ↔ new ∉ d.breakpoints) := by
  intro d
  have hreach : d.machine.Reachable := reachable_afterCalls (show (attach m).machine.Reachable from hm) calls
  refine ⟨nodup_afterCalls_iff (d := attach m) .nil calls, ?_, ?_⟩
  · intro b
    refine ⟨not_mem_remove_iff d b, ?_⟩
    intro hcount later hlater
    have hgone := not_mem_afterCalls ((not_mem_remove_iff d b).2 hcount) hlater
    have hreach : (d.remove b).machine.Reachable := hreach
    exact ⟨hgone, fun limit n h => stopsWithout_of_not_mem (reachable_afterCalls hreach later) hgone h⟩
  · intro old new hmem hne
    obtain ⟨hold, hnew, -⟩ := count_update d hmem hne
    have hpos := List.count_pos_iff.2 hmem
    rw [← List.count_eq_zero, ← List.count_eq_zero, hold, hnew]
    constructor <;> omega

def atExecute : Breakpoint :=
  { kind := .phase, phase := some (.at .execute) }

def atStore : Breakpoint :=
  { kind := .phase, phase := some (.at .store) }

/-- Of two breakpoints one is switched off. Both stay different, and the other one can be removed for good. -/
theorem breakpoints_distinct_iff_switched :
    let m := (Machine.small false false).load Machine.stoppingProgram
    let off : Breakpoint := { atExecute with enabled := false }
    let d := (attach m).afterCalls [.edit (.add atExecute), .edit (.add atStore)]
    m.Reachable ∧ atExecute ∈ d.breakpoints ∧ atExecute ≠ off ∧
      atExecute ∉ (d.update atExecute off).breakpoints ∧ (d.update atExecute off).breakpoints.count off = 1 ∧
      atStore ∉ (((d.remove atStore).afterCalls [.stepPhase]).breakpoints) ∧
      (((d.remove atStore).afterCalls [.stepPhase]).run none).result = .ok 2 ∧
      ((d.remove atStore).afterCalls [.stepPhase]).StopsWithout atStore none 2 := by
  intro m off d
  have hm : m.Reachable := (Machine.reachable_small false false).perform (.load _)
  obtain ⟨-, hremove, hupdate⟩ := breakpoints_distinct_iff hm [.edit (.add atExecute), .edit (.add atStore)]
  have hmem : atExecute ∈ d.breakpoints := by decide +kernel
  have hne : atExecute ≠ off := by decide
  obtain ⟨hold, hnew⟩ := hupdate atExecute off hmem hne
  have hcount : d.breakpoints.count atStore ≤ 1 := by decide +kernel
  obtain ⟨hgone, hruns⟩ := (hremove atStore).2 hcount [.stepPhase] (by simp)
  have htwo : (((d.remove atStore).afterCalls [.stepPhase]).run none).result = .ok 2 := by decide +kernel
  exact ⟨hm, hmem, hne, hold.2 (by decide +kernel), hnew.2 (by decide +kernel), hgone, htwo, hruns none 2 htwo⟩

/-- A breakpoint that was updated to another one that was there is removed, and still there: a run stops
for it, and only without its second copy goes on to the end of the program. -/
theorem update_doubles :
    let m := (Machine.small false false).load Machine.stoppingProgram
    let d := (attach m).afterCalls
      [.edit (.add atExecute), .edit (.add atStore), .edit (.update atExecute atStore)]
    m.Reachable ∧ d.breakpoints = [atStore, atStore] ∧ atStore ∈ (d.remove atStore).breakpoints ∧
      ((d.remove atStore).run none).result = .ok 4 ∧
      (((d.remove atStore).remove atStore).run none).result = .ok 8 := by
  intro m d
  have hm : m.Reachable := (Machine.reachable_small false false).perform (.load _)
  exact ⟨hm, by decide +kernel, by decide +kernel, by decide +kernel, by decide +kernel⟩

end PhaseMachine.Debugger
