/-
The account of a session over exact times, with a clock that never goes back. The open tasks are those
that wait in the queue; whatever waits comes after all that was started; and no poll, however deep
inside others, reads a time that the clock has not reached. Every command of a script and every step of
a poll keeps the account, whatever callbacks do in the middle of it.
-/
import PhaseMachine.Proofs.Scheduler.Waiting

namespace PhaseMachine.Script

/-! ## Scripts that never move the clock back -/

mutual

def Command.isForward : Command Rat → Bool
  | .schedule _ _ callback => areForward callback
  | .advance ms => 0 ≤ ms
  | _ => true

/-- Whether no command of a script, or of a callback in it, moves the clock back. -/
def areForward : List (Command Rat) → Bool
  | [] => true
  | c :: rest => c.isForward && areForward rest

end

/-! ## Sessions -/

/-- What ties the acts of a session to its state. -/
structure Account (acts : List (Act Rat)) (s : Session Rat) : Prop where
  wf : s.scheduler.WF
  story : Story acts s.scheduler.nextSeq
  started : starts acts = s.started
  waiting : ∀ t, Open acts t ↔ t ∈ s.scheduler.queue ∧ t.cancelled = false
  forward : ∀ t ∈ s.scheduler.queue, areForward t.payload.script = true
  increasing : s.started.Pairwise fun a b => a.task.key < b.task.key
  below : ∀ a ∈ s.started, ∀ t ∈ s.scheduler.queue, a.task.key < t.key
  read : ∀ a ∈ s.started, a.task.due ≤ a.reading ∧ a.reading ≤ s.clock
  tags : ∀ p ∈ s.tagged, p.2 < s.scheduler.nextSeq

theorem account_nil (clock : Rat) : Account [] { clock } where
  wf := Scheduler.wf_empty
  story := story_nil
  started := rfl
  waiting t := ⟨fun h => absurd h (not_open_nil t), fun h => absurd h.1 (Array.not_mem_empty t)⟩
  forward t ht := absurd ht (Array.not_mem_empty t)
  increasing := .nil
  below _ ha := absurd ha List.not_mem_nil
  read _ ha := absurd ha List.not_mem_nil
  tags _ hp := absurd hp List.not_mem_nil

namespace Account

variable {acts : List (Act Rat)} {s : Session Rat}

theorem starts_concat (h : Account acts s) {a : Act Rat} (ha : ∀ b, a ≠ .started b) :
    starts (acts ++ [a]) = s.started := by
  have hnone : starts [a] = [] := by
    cases a with
    | started b => exact absurd rfl (ha b)
    | _ => rfl
  rw [← h.started, ← List.append_nil (starts acts), ← hnone]
  exact List.filterMap_append

/-- Whatever was started was due by now. -/
theorem due_le_clock (h : Account acts s) {a : Start Rat} (ha : a ∈ s.started) : a.task.due ≤ s.clock :=
  (h.read a ha).1.trans (h.read a ha).2

/-- A new task is due no earlier than now and has the highest number, so it comes after all that was
started. -/
theorem schedule (h : Account acts s) (delay : Rat) {callback : Callback Rat}
    (hf : areForward callback.script = true) :
    Account (acts ++ [.scheduled (s.newTask delay callback)]) (s.schedule delay callback) where
  wf := h.wf.schedule ..
  story := h.story.scheduled rfl
  started := h.starts_concat fun b hb => by cases hb
  waiting := Waiting.schedule h.waiting s.clock delay callback
  forward t ht := by
    rcases (Scheduler.mem_schedule ..).1 ht with rfl | ht
    · exact hf
    · exact h.forward t ht
  increasing := h.increasing
  below a ha t ht := by
    rcases (Scheduler.mem_schedule ..).1 ht with rfl | ht
    · -- at the same due time it is the number that decides
      have hdue := (h.due_le_clock ha).trans (s.scheduler.le_due_newTask s.clock delay callback)
      have hopened : Act.started a ∈ acts := mem_starts.1 (h.started ▸ ha)
      obtain ⟨earlier, later, hacts⟩ := List.append_of_mem hopened
      have hseq : a.task.seq < s.scheduler.nextSeq := by
        refine h.story.seq_lt ?_
        rw [hacts]
        exact List.mem_append_left _ (h.story.starts earlier a later hacts).1.scheduled
      rcases hdue.lt_or_eq with hlt | he
      · exact Task.key_lt_iff.2 (.inl hlt)
      · exact Task.key_lt_iff.2 (.inr ⟨he, hseq⟩)
    · exact h.below a ha t ht
  read := h.read
  tags p hp := by
    rcases List.mem_cons.1 hp with rfl | hp
    · exact Nat.lt_succ_self _
    · exact (h.tags p hp).trans (Nat.lt_succ_self _)

theorem cancel (h : Account acts s) {seq : Nat} (hs : seq < s.scheduler.nextSeq) :
    Account (acts ++ [.cancelled seq]) { s with scheduler := s.scheduler.cancel seq } where
  wf := h.wf.cancel seq
  story := h.story.cancelled hs
  started := h.starts_concat fun b hb => by cases hb
  waiting := Waiting.cancel h.waiting seq
  forward t ht := by
    obtain ⟨u, hu, cancelled, rfl⟩ := Scheduler.mem_cancel ht
    exact h.forward u hu
  increasing := h.increasing
  below a ha t ht := by
    obtain ⟨u, hu, cancelled, rfl⟩ := Scheduler.mem_cancel ht
    exact h.below a ha u hu
  read := h.read
  tags := h.tags

theorem advanceEpoch (h : Account acts s) :
    Account (acts ++ [.left]) { s with scheduler := s.scheduler.advanceEpoch } where
  wf := .advanceEpoch s.scheduler
  story := h.story.left
  started := h.starts_concat fun b hb => by cases hb
  waiting := Waiting.advanceEpoch acts s.scheduler
  forward t ht := absurd ht (Array.not_mem_empty t)
  increasing := h.increasing
  below a ha t ht := absurd ht (Array.not_mem_empty t)
  read := h.read
  tags := h.tags

theorem advance (h : Account acts s) {ms : Rat} (hms : 0 ≤ ms) :
    Account acts { s with clock := s.clock + ms } :=
  { h with read := fun a ha => ⟨(h.read a ha).1, (h.read a ha).2.trans (le_add_of_nonneg_right hms)⟩ }

variable {reading : Rat} {task : Task Rat (Callback Rat)} {rest : Scheduler Rat (Callback Rat)}

theorem pass (h : Account acts s) (ht : s.scheduler.takeDue? reading = some (task, rest))
    (hl : rest.live task = false) : Account acts { s with scheduler := rest } := by
  have hmem := Scheduler.mem_takeDue? ht
  have hwf := h.wf.takeDue? ht
  have hwaiting := Waiting.pass h.waiting h.wf ht hl
  have hseq : rest.nextSeq = s.scheduler.nextSeq := by
    obtain ⟨-, -, -, rfl⟩ := Scheduler.takeDue?_some ht
    rfl
  exact {
    h with
    wf := hwf
    story := hseq ▸ h.story
    waiting := hwaiting
    forward := fun t hin => h.forward t ((hmem t).2 (.inr hin))
    below := fun a ha t hin => h.below a ha t ((hmem t).2 (.inr hin))
    tags := hseq ▸ h.tags }

/-- A task that is taken and live was open. It comes after all that was started before, and before all
that still waits. -/
theorem start (h : Account acts s) (ht : s.scheduler.takeDue? reading = some (task, rest))
    (hl : rest.live task = true) (hr : reading ≤ s.clock) :
    Account (acts ++ [.started ⟨task, reading⟩])
      ({ s with scheduler := rest }.start reading task) := by
  have hmem := Scheduler.mem_takeDue? ht
  have hlater := fun {u} => h.wf.takeDue?_lt ht (u := u)
  have hwf := h.wf.takeDue? ht
  obtain ⟨-, -, hdue, hrest⟩ := Scheduler.takeDue?_some ht
  have htask : task ∈ s.scheduler.queue := (hmem task).2 (.inl rfl)
  have hseq : rest.nextSeq = s.scheduler.nextSeq := by rw [hrest]
  have hopen : Open acts task := Waiting.open_of_live h.waiting h.wf ht hl
  refine {
    wf := hwf, story := ?_, started := ?_, waiting := Waiting.start h.waiting h.wf ht
    forward := fun t hin => h.forward t ((hmem t).2 (.inr hin))
    increasing := ?_, below := ?_, read := ?_, tags := hseq ▸ h.tags }
  · show Story _ rest.nextSeq
    rw [hseq]
    exact h.story.started hopen
  · show _ = s.started ++ [⟨task, reading⟩]
    rw [← h.started]
    exact List.filterMap_append
  · refine List.pairwise_append.2 ⟨h.increasing, List.pairwise_singleton .., fun a ha b hb => ?_⟩
    rw [List.mem_singleton.1 hb]
    exact h.below a ha task htask
  · intro a ha t hin
    rcases List.mem_append.1 ha with ha | ha
    · exact h.below a ha t ((hmem t).2 (.inr hin))
    · rw [List.mem_singleton.1 ha]
      exact (hlater hin).1
  · intro a ha
    rcases List.mem_append.1 ha with ha | ha
    · exact h.read a ha
    · rw [List.mem_singleton.1 ha]
      exact ⟨hdue, hr⟩

end Account

/-! ## Runs -/

/-- A frame has no command that moves the clock back, or a reading that the clock has reached. -/
def Frame.Sane (clock : Rat) : Frame Rat → Prop
  | script rest => areForward rest = true
  | poll reading _ => reading ≤ clock

theorem Frame.Sane.later {f : Frame Rat} {clock clock' : Rat} (h : f.Sane clock) (hc : clock ≤ clock') :
    f.Sane clock' := by
  cases f with
  | script rest => exact h
  | poll reading count => exact le_trans h hc

/-- The account of a run: that of its session, and sane frames. -/
structure Run.Accounted (acts : List (Act Rat)) (r : Run Rat) : Prop where
  session : Account acts r.session
  frames : ∀ f ∈ r.stack, f.Sane r.session.clock

namespace Run

theorem mem_of_lookup {α β : Type} [BEq α] [LawfulBEq α] {l : List (α × β)} {a : α} {b : β}
    (h : l.lookup a = some b) : (a, b) ∈ l := by
  induction l with
  | nil => cases h
  | cons p l ih =>
    rw [List.lookup_cons] at h
    split at h
    · next he =>
      cases h
      rw [beq_iff_eq] at he
      subst he
      exact List.mem_cons_self ..
    · exact List.mem_cons_of_mem _ (ih h)

/-- Carrying out a command of a script keeps the account. -/
theorem Accounted.perform {acts : List (Act Rat)} {r : Run Rat} {c : Command Rat} {cs : List (Command Rat)}
    {below : List (Frame Rat)} (h : r.Accounted acts) (hs : r.stack = .script (c :: cs) :: below) :
    Accounted (acts ++ r.act?.toList) ({ r with stack := .script cs :: below }.perform c) := by
  have hsane := h.frames (.script (c :: cs)) (hs ▸ List.mem_cons_self ..)
  obtain ⟨hc, hcs⟩ : c.isForward = true ∧ areForward cs = true := by
    unfold Frame.Sane areForward at hsane
    exact Bool.and_eq_true_iff.1 hsane
  have hframes : ∀ f ∈ Frame.script cs :: below, f.Sane r.session.clock := by
    intro f hf
    rcases List.mem_cons.1 hf with rfl | hf
    · exact hcs
    · exact h.frames f (hs ▸ List.mem_cons_of_mem _ hf)
  unfold act?
  rw [hs]
  cases c with
  | schedule tag delay callback =>
    refine ⟨h.session.schedule delay ?_, hframes⟩
    unfold Command.isForward at hc
    exact hc
  | cancel tag =>
    unfold Run.perform Session.cancel
    dsimp only
    cases hl : r.session.tagged.lookup tag with
    | none => exact ⟨(List.append_nil acts).symm ▸ h.session, hframes⟩
    | some seq => exact ⟨h.session.cancel (h.session.tags _ (mem_of_lookup hl)), hframes⟩
  | advance ms =>
    have hms : 0 ≤ ms := by
      unfold Command.isForward at hc
      exact of_decide_eq_true hc
    refine ⟨(List.append_nil acts).symm ▸ h.session.advance hms, fun f hf => ?_⟩
    exact (hframes f hf).later (le_add_of_nonneg_right hms)
  | poll =>
    refine ⟨(List.append_nil acts).symm ▸ h.session, fun f hf => ?_⟩
    rcases List.mem_cons.1 hf with rfl | hf
    · exact le_refl r.session.clock
    · exact hframes f hf
  | advanceEpoch => exact ⟨h.session.advanceEpoch, hframes⟩
  | outOfRange =>
    exact ⟨(List.append_nil acts).symm ▸ h.session, fun f hf => absurd hf List.not_mem_nil⟩

/-- Every step keeps the account. -/
theorem Accounted.next? {acts : List (Act Rat)} {r q : Run Rat} (h : r.Accounted acts)
    (hq : r.next? = some q) : q.Accounted (acts ++ r.act?.toList) := by
  unfold Run.next? at hq
  split at hq
  · cases hq
  · next below hs =>
    cases hq
    unfold act?
    rw [hs]
    refine ⟨(List.append_nil acts).symm ▸ h.session, fun f hf => ?_⟩
    exact h.frames f (hs ▸ List.mem_cons_of_mem _ hf)
  · next c cs below hs =>
    cases hq
    exact h.perform hs
  · next reading count below hs =>
    have hreading : reading ≤ r.session.clock := h.frames (.poll reading count) (hs ▸ List.mem_cons_self ..)
    have hbelow : ∀ f ∈ below, f.Sane r.session.clock := fun f hf =>
      h.frames f (hs ▸ List.mem_cons_of_mem _ hf)
    unfold act?
    rw [hs]
    dsimp only
    split at hq
    · next ht =>
      cases hq
      rw [ht]
      exact ⟨(List.append_nil acts).symm ▸ h.session, hbelow⟩
    · next task rest ht =>
      rw [ht]
      dsimp only
      split at hq
      · next hl =>
        cases hq
        rw [if_pos hl]
        -- the callback is a script of the queue; the poll goes on below it
        refine ⟨h.session.start ht hl hreading, fun f hf => ?_⟩
        rcases List.mem_cons.1 hf with rfl | hf
        · exact h.session.forward task ((Scheduler.mem_takeDue? ht task).2 (.inl rfl))
        · rcases List.mem_cons.1 hf with rfl | hf
          · exact hreading
          · exact hbelow f hf
      · next hl =>
        cases hq
        rw [if_neg hl]
        refine ⟨(List.append_nil acts).symm ▸ h.session.pass ht (Bool.eq_false_iff.2 hl), fun f hf => ?_⟩
        exact h.frames f hf

/-- So every moment of a run has the account of its acts. -/
theorem Accounted.moment {r : Run Rat} (h : r.Accounted []) (n : Nat) : (r.moment n).Accounted (r.acts n) := by
  induction n with
  | zero => exact h
  | succ n ih =>
    rcases r.moment_succ_cases n with ⟨q, hq, hmoment⟩ | ⟨hmoment, hacts⟩
    · rw [hmoment]
      exact ih.next? hq
    · rw [hmoment, hacts]
      exact ih

end Run

end PhaseMachine.Script
