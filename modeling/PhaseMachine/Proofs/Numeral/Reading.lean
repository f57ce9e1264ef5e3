/-
What is read as an integer, and what is refused. Only digits are read, with single underscores among
them, and without the underscores they spell the number.
-/
import PhaseMachine.Proofs.Numeral.Spelling

namespace PhaseMachine.Numeral

open Text

variable {base n : Nat} {cs ds : List Char} {c : Char}

/-! ## Digits -/

theorem isDecimal_iff : isDecimal c = true ↔ ∃ d, digitValue? 10 c = some d := by
  refine ⟨fun h => ?_, fun ⟨d, hd⟩ => isDecimal_of_digit hd⟩
  obtain ⟨d, hd⟩ := Option.isSome_iff_exists.1 h
  obtain ⟨z, hz, rfl⟩ := Option.map_eq_some_iff.1 hd
  have hrow := List.find?_some hz
  simp only [Bool.and_eq_true, decide_eq_true_eq] at hrow
  exact ⟨c.toNat - z, digitValue?_eq_some.2 ⟨by rw [anyDigit?, hd, Option.some_or], by omega⟩⟩

theorem ne_underscore_of_digit (hb : base ≤ 16) {d : Nat} (h : digitValue? base c = some d) : c ≠ '_' := by
  rintro rfl
  simp [mark_not_digit hb] at h

/-- Digits, at least one, spell a number. -/
theorem exists_spells (hne : ds ≠ []) (h : ∀ c ∈ ds, ∃ d, digitValue? base c = some d) :
    ∃ n, Spells base ds n := by
  induction ds using List.reverseRecOn with
  | nil => exact absurd rfl hne
  | append_singleton ds c ih =>
    obtain ⟨d, hd⟩ := h c (List.mem_append_right _ (List.mem_singleton_self c))
    rcases eq_or_ne ds [] with rfl | hds
    · exact ⟨d, .one hd⟩
    · obtain ⟨n, hn⟩ := ih hds fun c hc => h c (List.mem_append_left _ hc)
      exact ⟨_, hn.more hd⟩

/-- What is read after a first part is more digits, and perhaps underscores. -/
theorem spells_of_digitsFrom? (hb : base ≤ 16) {acc : Nat} (hds : Spells base ds acc)
    (h : digitsFrom? base acc cs = some n) : Spells base (ds ++ cs.filter (· ≠ '_')) n := by
  fun_induction digitsFrom? base acc cs generalizing ds with
  | case1 acc =>
    obtain rfl := Option.some.inj h
    simpa using hds
  | case2 acc c cs ih =>
    obtain ⟨d, hd, hrest⟩ := Option.bind_eq_some_iff.1 h
    have hmore := ih d (hds.more hd) hrest
    simpa [ne_underscore_of_digit hb hd] using hmore
  | case3 acc c cs _ ih =>
    obtain ⟨d, hd, hrest⟩ := Option.bind_eq_some_iff.1 h
    have hmore := ih d (hds.more hd) hrest
    simpa [ne_underscore_of_digit hb hd] using hmore

theorem spells_of_digits? (hb : base ≤ 16) (h : digits? base cs = some n) :
    Spells base (cs.filter (· ≠ '_')) n := by
  cases cs with
  | nil => cases h
  | cons c cs =>
    obtain ⟨d, hd, hrest⟩ := Option.bind_eq_some_iff.1 h
    have hmore := spells_of_digitsFrom? hb (.one hd) hrest
    simpa [ne_underscore_of_digit hb hd] using hmore

theorem filter_underscore (h : '_' ∉ cs) : cs.filter (· ≠ '_') = cs :=
  List.filter_eq_self.2 fun c hc => by
    have hne : c ≠ '_' := fun he => h (he ▸ hc)
    simpa using hne

/-- Of the mark of base 16, and of an underscore right after it, only the underscore is more than the digits. -/
theorem filter_unmarked {x : Char} (hx : x = 'x' ∨ x = 'X') :
    (unmarked 16 ('0' :: x :: cs)).filter (· ≠ '_') = cs.filter (· ≠ '_') := by
  unfold unmarked
  simp only [hx, and_self, if_true]
  split
  · simp
  · rfl

theorem unmarked_of_ne (hb : base ≠ 16) : unmarked base cs = cs := by
  unfold unmarked
  split
  · exact if_neg fun h => hb h.1
  · rfl

/-! ## Signs -/

theorem minus_mem_signs (n : Nat) : ['-'] ∈ signs (-(n : Int)) := by
  unfold signs
  split
  · exact List.mem_singleton_self _
  · rw [if_pos (by omega)]
    simp

theorem plus_mem_signs (n : Nat) : ['+'] ∈ signs n := by
  rw [signs, if_neg (by omega)]
  split <;> simp

/-- The sign that is cut off is one that an integer with the rest for its magnitude may have. -/
theorem exists_sign (cs : List Char) : ∃ sign, cs = sign ++ (signed cs).2 ∧
    ∀ n : Nat, sign ∈ signs (if (signed cs).1 then -(n : Int) else n) := by
  unfold signed
  split
  · exact ⟨['-'], rfl, minus_mem_signs⟩
  · exact ⟨['+'], rfl, plus_mem_signs⟩
  · exact ⟨[], rfl, plain_mem_signs⟩

/-! ## Refusals -/

theorem readChars_of_none (h : readChars? base cs = none) : ∃ r, readChars base cs = .error r := by
  unfold readChars
  rw [h]
  split
  · exact ⟨_, rfl⟩
  · exact ⟨_, rfl⟩

theorem readChars_of_excess (h : excess? cs = some n) : readChars 10 cs = .error (.tooLong n) := by
  simp [readChars, h]

theorem readChars_eq_ok {i : Int} (h : readChars base cs = .ok i) : readChars? base cs = some i := by
  cases hread : readChars? base cs with
  | none =>
    obtain ⟨r, hr⟩ := readChars_of_none hread
    rw [hr] at h
    cases h
  | some j =>
    unfold readChars at h
    rw [hread] at h
    split at h
    · cases h
    · exact congrArg some (Except.ok.inj h)

/-! ## Text without margins -/

/-- What has no white space around it has none around a numeral. -/
theorem trimBy_isMargin_trim (cs : List Char) : trimBy isMargin (trim cs) = trim cs := by
  have hmargin : ∀ {c : Char}, isBlank c = false → isMargin c = false := fun h => by simp [isMargin, h]
  exact trimBy_of_ends (fun c hc => hmargin (head?_trimBy hc)) fun c hc => hmargin (getLast?_trimBy hc)

theorem readChars?_trim (base : Nat) (cs : List Char) :
    readChars? base (trim cs) = (digits? base (unmarked base (signed (trim cs)).2)).map fun n : Nat =>
      if (signed (trim cs)).1 then -(n : Int) else n := by
  rw [readChars?, trimBy_isMargin_trim]
  dsimp only
  cases digits? base (unmarked base (signed (trim cs)).2) <;> rfl

/-- Digits behind a sign that are too many are counted. -/
theorem excess?_trim (h : Spells 10 (signed (trim cs)).2 n) (hlong : maxDigits < (signed (trim cs)).2.length) :
    excess? (trim cs) = some (signed (trim cs)).2.length := by
  rw [excess?, trimBy_isMargin_trim]
  split
  · next heq => exact absurd (h.not_mark (by decide) (c := '_') (by rw [heq]; simp)) (by simp)
  · rw [h.leadingDigits? (by decide)]
    exact Option.filter_some_pos (by simpa using hlong)

end PhaseMachine.Numeral
