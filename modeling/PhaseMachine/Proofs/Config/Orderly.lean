/-
Orderly readings. Reading configuration data is orderly if it has a result or names a mistake of the
configuration; any other failure shows only that the data has the wrong shape. A reading in several steps
is orderly as long as each step is that it comes to, and it comes to a step if those before it have
results.
-/
import PhaseMachine.Config.Refusal
import PhaseMachine.Proofs.Execution.Action

namespace PhaseMachine.Config

variable {ε α β : Type}

def Orderly (x : Except Failure α) : Prop :=
  (∃ a, x = .ok a) ∨ ∃ r, x = .error (.refused r)

/-- What is asked of the rest of a reading. Nothing is, if this part of it has no result. -/
def after (x : Except ε α) (rest : α → Bool) : Bool :=
  match x with
  | .ok a => rest a
  | .error _ => true

/-- Whether items that are read in turn have the right shape, up to the first one without a result. -/
def inTurn (read : α → Except Failure β) (shaped : α → Bool) : List α → Bool
  | [] => true
  | a :: items => shaped a && after (read a) fun _ => inTurn read shaped items

@[simp]
theorem after_mapError {ε' : Type} (x : Except ε α) (f : ε → ε') (rest : α → Bool) :
    after (x.mapError f) rest = after x rest := by
  cases x <;> rfl

/-- The results of a reading of items in turn are those of its items. -/
theorem mem_of_mapM_ok {read : α → Except ε β} {items : List α} {results : List β}
    (h : items.mapM read = .ok results) {b : β} (hb : b ∈ results) : ∃ a ∈ items, read a = .ok b := by
  induction items generalizing results with
  | nil =>
    cases h
    cases hb
  | cons a items ih =>
    rw [List.mapM_cons] at h
    obtain ⟨c, hc, h⟩ := bind_ok h
    obtain ⟨cs, hcs, h⟩ := bind_ok h
    cases h
    rcases List.mem_cons.1 hb with rfl | hb
    · exact ⟨a, List.mem_cons_self .., hc⟩
    · obtain ⟨a', ha', hread⟩ := ih hcs hb
      exact ⟨a', List.mem_cons_of_mem a ha', hread⟩

namespace Orderly

theorem ok (a : α) : Orderly (.ok a) :=
  .inl ⟨a, rfl⟩

theorem refused (r : Refusal) : Orderly (.error (.refused r) : Except Failure α) :=
  .inr ⟨r, rfl⟩

theorem ok_iff (a : α) : Orderly (.ok a) ↔ true = true :=
  iff_of_true (.ok a) rfl

theorem error_iff {f : Failure} : Orderly (.error f : Except Failure α) ↔ ∃ r, f = .refused r := by
  simp [Orderly]

/-- A mistake is named if the values to be shown can be written. -/
theorem refuse_iff (r : Refusal) : Orderly (refuse r : Except Failure α) ↔ r.values.all Value.isWritable = true := by
  unfold refuse
  rw [error_iff]
  split <;> simp_all

theorem refuse_of_nil {r : Refusal} (h : r.values = []) : Orderly (refuse r : Except Failure α) := by
  rw [refuse_iff, h]
  rfl

theorem textOf_iff (v : Value) : Orderly (textOf v) ↔ v.isWritable = true := by
  unfold textOf
  split
  · next h => simp [h, Orderly.ok]
  · next h => simp [h, error_iff]

/-- What fails otherwise, and is taken for a mistake. -/
theorem mapError (x : Except ε α) (f : ε → Refusal) : Orderly (x.mapError fun e => .refused (f e)) := by
  cases x with
  | ok a => exact .ok a
  | error e => exact .refused (f e)

theorem map_iff (x : Except Failure α) (f : α → β) : Orderly (x.map f) ↔ Orderly x := by
  cases x with
  | ok a => exact iff_of_true (.ok _) (.ok a)
  | error e => exact error_iff.trans error_iff.symm

theorem bind_iff {x : Except Failure α} {f : α → Except Failure β} {p : Bool} {q : α → Bool}
    (hx : Orderly x ↔ p = true) (hf : ∀ a, x = .ok a → (Orderly (f a) ↔ q a = true)) :
    Orderly (x >>= f) ↔ (p && after x q) = true := by
  cases x with
  | ok a =>
    have hp : p = true := hx.1 (.ok a)
    rw [hp]
    exact hf a rfl
  | error e =>
    show Orderly (.error e) ↔ _
    rw [error_iff, ← error_iff (α := α), hx]
    simp [after]

/-- If the rest of a reading is orderly anyway, it depends on the first part. -/
theorem bind_iff_left {x : Except Failure α} {f : α → Except Failure β} (hf : ∀ a, x = .ok a → Orderly (f a)) :
    Orderly (x >>= f) ↔ Orderly x := by
  cases x with
  | ok a => exact iff_of_true (hf a rfl) (.ok a)
  | error e =>
    show Orderly (.error e) ↔ _
    rw [error_iff, error_iff]

/-- A reading whose parts are all orderly. -/
protected theorem bind {x : Except Failure α} {f : α → Except Failure β} (hx : Orderly x)
    (hf : ∀ a, x = .ok a → Orderly (f a)) : Orderly (x >>= f) :=
  (bind_iff_left hf).2 hx

theorem bind_textOf_iff {v : Value} {f : String → Except Failure β} {q : Bool}
    (hf : v.isWritable = true → (Orderly (f v.text) ↔ q = true)) :
    Orderly (textOf v >>= f) ↔ (v.isWritable && q) = true := by
  unfold textOf
  cases hv : v.isWritable with
  | true => exact hf hv
  | false => exact error_iff.trans (by simp)

theorem mapM_iff {read : α → Except Failure β} {shaped : α → Bool} {items : List α}
    (h : ∀ a ∈ items, Orderly (read a) ↔ shaped a = true) :
    Orderly (items.mapM read) ↔ inTurn read shaped items = true := by
  induction items with
  | nil => exact ok_iff []
  | cons a items ih =>
    have hrest := ih fun b hb => h b (List.mem_cons_of_mem a hb)
    rw [List.mapM_cons]
    refine bind_iff (h a (List.mem_cons_self ..)) fun b _ => ?_
    exact (bind_iff_left fun bs _ => .ok (b :: bs)).trans hrest

end Orderly

end PhaseMachine.Config
