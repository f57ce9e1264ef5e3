/-
Numerals and the integers that they spell. The digits of a number, in either case, read back as the
number; a sign in front and white space around them change nothing else.
-/
import PhaseMachine.Numeral.Integer
import Mathlib.Algebra.Ring.Nat
import Mathlib.Data.List.DropRight

namespace PhaseMachine.Text

/-! ## Trimming -/

section Trimming

variable {p : Char → Bool} {front cs back : List Char}

theorem dropWhile_margin (hf : ∀ c ∈ front, p c) (hc : ∀ c ∈ cs.head?, p c = false) :
    (front ++ cs).dropWhile p = cs := by
  rw [List.dropWhile_append_of_pos hf]
  cases cs with
  | nil => rfl
  | cons c cs => simp [hc c rfl]

/-- Trimming takes a margin off both ends and stops there. -/
theorem trimBy_margins (hf : ∀ c ∈ front, p c) (hb : ∀ c ∈ back, p c)
    (hh : ∀ c ∈ cs.head?, p c = false) (hl : ∀ c ∈ cs.getLast?, p c = false) :
    trimBy p (front ++ cs ++ back) = cs := by
  rcases eq_or_ne cs [] with rfl | hne
  · have hall : ∀ c ∈ front ++ back, p c := fun c hc => (List.mem_append.1 hc).elim (hf c) (hb c)
    have hdrop : (front ++ back).dropWhile p = [] := List.dropWhile_eq_nil_iff.2 hall
    simp [trimBy, hdrop]
  · have hdrop : (front ++ (cs ++ back)).dropWhile p = cs ++ back :=
      dropWhile_margin hf (by rwa [List.head?_append_of_ne_nil _ hne])
    have hback : (back.reverse ++ cs.reverse).dropWhile p = cs.reverse :=
      dropWhile_margin (by simpa using hb) (by rwa [List.head?_reverse])
    rw [trimBy, List.append_assoc, hdrop, List.reverse_append, hback, List.reverse_reverse]

/-- A text without margins is left as it is. -/
theorem trimBy_of_ends (hh : ∀ c ∈ cs.head?, p c = false) (hl : ∀ c ∈ cs.getLast?, p c = false) :
    trimBy p cs = cs := by
  have h : trimBy p ([] ++ cs ++ []) = cs := trimBy_margins (by simp) (by simp) hh hl
  rwa [List.nil_append, List.append_nil] at h

theorem trimBy_of_forall (h : ∀ c ∈ cs, p c = false) : trimBy p cs = cs :=
  trimBy_of_ends (fun c hc => h c (List.mem_of_mem_head? hc)) (fun c hc => h c (List.mem_of_mem_getLast? hc))

theorem head?_dropWhile {c : Char} (h : c ∈ (cs.dropWhile p).head?) : p c = false := by
  have hnot := List.head?_dropWhile_not p cs
  rwa [Option.mem_def.1 h] at hnot

theorem getLast?_trimBy {c : Char} (h : c ∈ (trimBy p cs).getLast?) : p c = false := by
  rw [trimBy, List.getLast?_reverse] at h
  exact head?_dropWhile h

/-- What is left starts with the first character that is kept. -/
theorem head?_trimBy {c : Char} (h : c ∈ (trimBy p cs).head?) : p c = false := by
  obtain ⟨rest, hrest⟩ := List.rdropWhile_prefix p (cs.dropWhile p)
  have hkept : trimBy p cs ++ rest = cs.dropWhile p := hrest
  have hfirst : c ∈ (cs.dropWhile p).head? := by
    rw [← hkept, List.head?_append, Option.mem_def.1 h]
    rfl
  exact head?_dropWhile hfirst

theorem trimBy_trimBy : trimBy p (trimBy p cs) = trimBy p cs :=
  trimBy_of_ends (fun _ => head?_trimBy) (fun _ => getLast?_trimBy)

end Trimming

end PhaseMachine.Text

namespace PhaseMachine.Numeral

open Text

variable {base : Nat}

/-! ## Single digits -/

/-- The value of a character as a digit of any base up to 36. -/
def anyDigit? (c : Char) : Option Nat :=
  (decimalValue? c).or (hexValue? c)

theorem digitValue?_eq_some {c : Char} {d : Nat} :
    digitValue? base c = some d ↔ anyDigit? c = some d ∧ d < base := by
  simp [digitValue?, anyDigit?, Option.filter_eq_some_iff]

theorem digitValue?_digitChar {d : Nat} (hb : base ≤ 16) (hd : d < base) :
    digitValue? base d.digitChar = some d := by
  have hall : ∀ d < 16, anyDigit? d.digitChar = some d := by decide +kernel
  exact digitValue?_eq_some.2 ⟨hall d (by omega), hd⟩

theorem anyDigit?_changed {f : Char → Char}
    (hf : ∀ k < 128, anyDigit? (f (Char.ofNat k)) = anyDigit? (Char.ofNat k))
    (hid : ∀ c : Char, 128 ≤ c.toNat → f c = c) (c : Char) : anyDigit? (f c) = anyDigit? c := by
  rcases lt_or_ge c.toNat 128 with h | h
  · simpa using hf c.toNat h
  · rw [hid c h]

theorem toLower_of_not_ascii {c : Char} (h : 128 ≤ c.toNat) : c.toLower = c := by
  have hval : 128 ≤ c.val.toNat := h
  refine dif_neg fun hc => ?_
  have hZ : c.val.toNat ≤ 90 := UInt32.le_iff_toNat_le.1 hc.2
  omega

theorem toUpper_of_not_ascii {c : Char} (h : 128 ≤ c.toNat) : c.toUpper = c := by
  have hval : 128 ≤ c.val.toNat := h
  refine dif_neg fun hc => ?_
  have hz : c.val.toNat ≤ 122 := UInt32.le_iff_toNat_le.1 hc.2
  omega

/-- A digit has one value in either case. -/
theorem digitValue?_toLower (c : Char) : digitValue? base c.toLower = digitValue? base c := by
  have h := anyDigit?_changed (f := Char.toLower) (by decide +kernel) (fun _ => toLower_of_not_ascii) c
  exact congrArg (Option.filter (· < base)) h

theorem digitValue?_toUpper (c : Char) : digitValue? base c.toUpper = digitValue? base c := by
  have h := anyDigit?_changed (f := Char.toUpper) (by decide +kernel) (fun _ => toUpper_of_not_ascii) c
  exact congrArg (Option.filter (· < base)) h

/-- Besides the decimal digits of all scripts there are only digits of ASCII. -/
theorem toNat_lt_of_hexValue {c : Char} {d : Nat} (h : hexValue? c = some d) : c.toNat < 128 := by
  by_contra hge
  have hval : 128 ≤ c.val.toNat := not_lt.1 hge
  have hnone : hexValue? c = none := by
    simp only [hexValue?, Char.le_def, UInt32.le_iff_toNat_le]
    rw [if_neg, if_neg, if_neg] <;> simp <;> omega
  simp [hnone] at h

/-- No digit is white space. -/
theorem isBlank_of_digit {c : Char} {d : Nat} (h : digitValue? base c = some d) : isBlank c = false := by
  rcases Option.or_eq_some_iff.1 (digitValue?_eq_some.1 h).1 with h | ⟨-, h⟩
  · -- each script has its ten digits in a row, and no white space among them
    have hrow : ∀ z ∈ decimalZeros, ∀ k < 10, inRanges blankRanges (z + k) = false := by decide +kernel
    obtain ⟨z, hz, -⟩ := Option.map_eq_some_iff.1 h
    have hc := List.find?_some hz
    simp only [Bool.and_eq_true, decide_eq_true_eq] at hc
    have hk := hrow z (List.mem_of_find?_eq_some hz) (c.toNat - z) (by omega)
    rwa [Nat.add_sub_cancel' hc.1] at hk
  · have hascii : ∀ k < 128, (hexValue? (Char.ofNat k)).isSome → isBlank (Char.ofNat k) = false := by
      decide +kernel
    have hk := hascii c.toNat (toNat_lt_of_hexValue h)
    rw [Char.ofNat_toNat] at hk
    exact hk (by rw [h]; rfl)

theorem isMargin_of_digit {c : Char} {d : Nat} (h : digitValue? base c = some d) : isMargin c = false := by
  simp [isMargin, isBlank_of_digit h]

/-- What has a value below ten is a decimal digit of some script. -/
theorem isDecimal_of_digit {c : Char} {d : Nat} (h : digitValue? 10 c = some d) : isDecimal c := by
  obtain ⟨hor, hd⟩ := digitValue?_eq_some.1 h
  rcases Option.or_eq_some_iff.1 hor with h | ⟨-, h⟩
  · simp [isDecimal, h]
  · have hascii : ∀ k < 128, ∀ d < 10, hexValue? (Char.ofNat k) = some d → isDecimal (Char.ofNat k) := by
      decide +kernel
    have hk := hascii c.toNat (toNat_lt_of_hexValue h) d hd
    rw [Char.ofNat_toNat] at hk
    exact hk h

/-- A decimal digit counts as a digit. -/
theorem isDigit_of_digit {c : Char} {d : Nat} (h : digitValue? 10 c = some d) : isDigit c := by
  simp [isDigit, isDecimal_of_digit h]

/-- The characters that a numeral has besides its digits. -/
theorem mark_not_digit {c : Char} (hb : base ≤ 16) (hc : c ∈ ['_', '+', '-', 'x', 'X']) :
    digitValue? base c = none := by
  have hall : ∀ d < 16, anyDigit? c ≠ some d := by
    simp only [List.mem_cons, List.not_mem_nil, or_false] at hc
    rcases hc with rfl | rfl | rfl | rfl | rfl <;> decide +kernel
  refine Option.eq_none_iff_forall_ne_some.2 fun d h => ?_
  obtain ⟨h, hd⟩ := digitValue?_eq_some.1 h
  exact hall d (by omega) h

/-! ## Runs of digits -/

/-- The characters are digits of the base, at least one, and denote the number. -/
inductive Spells (base : Nat) : List Char → Nat → Prop
  | one {c : Char} {d : Nat} : digitValue? base c = some d → Spells base [c] d
  | more {cs : List Char} {n : Nat} {c : Char} {d : Nat} :
    Spells base cs n → digitValue? base c = some d → Spells base (cs ++ [c]) (n * base + d)

/-- One more digit at the end. -/
theorem digitsFrom?_concat (hb : base ≤ 16) {acc n d : Nat} {cs : List Char} {c : Char}
    (h : digitsFrom? base acc cs = some n) (hd : digitValue? base c = some d) :
    digitsFrom? base acc (cs ++ [c]) = some (n * base + d) := by
  fun_induction digitsFrom? base acc cs with
  | case1 acc =>
    obtain rfl := Option.some.inj h
    simp [digitsFrom?, hd]
  | case2 acc a cs ih =>
    obtain ⟨b, ha, hrest⟩ := Option.bind_eq_some_iff.1 h
    exact Option.bind_eq_some_iff.2 ⟨b, ha, ih b hrest⟩
  | case3 acc a cs _ ih =>
    obtain ⟨b, ha, hrest⟩ := Option.bind_eq_some_iff.1 h
    have hne : a ≠ '_' := fun hne => by simp [hne, mark_not_digit hb] at ha
    rw [List.cons_append, digitsFrom?.eq_3 _ _ _ _ fun _ _ h _ => hne h]
    exact Option.bind_eq_some_iff.2 ⟨b, ha, ih b hrest⟩

namespace Spells

variable {cs ds : List Char} {m n : Nat}

theorem ne_nil (h : Spells base cs n) : cs ≠ [] := by
  cases h <;> simp

theorem digit (h : Spells base cs n) : ∀ c ∈ cs, ∃ d, digitValue? base c = some d := by
  induction h with
  | one hd => exact fun c hc => ⟨_, List.mem_singleton.1 hc ▸ hd⟩
  | more _ hd ih =>
    intro c hc
    rcases List.mem_append.1 hc with hc | hc
    exacts [ih c hc, ⟨_, List.mem_singleton.1 hc ▸ hd⟩]

/-- The characters that a numeral has besides its digits do not stand among them. -/
theorem not_mark (h : Spells base cs n) (hb : base ≤ 16) {c : Char} (hc : c ∈ cs) :
    c ∉ ['_', '+', '-', 'x', 'X'] := by
  intro hmark
  obtain ⟨d, hd⟩ := h.digit c hc
  simp [mark_not_digit hb hmark] at hd

theorem not_margin (h : Spells base cs n) {c : Char} (hc : c ∈ cs) : isMargin c = false :=
  (h.digit c hc).elim fun _ hd => isMargin_of_digit hd

theorem not_blank (h : Spells base cs n) {c : Char} (hc : c ∈ cs) : isBlank c = false :=
  (h.digit c hc).elim fun _ hd => isBlank_of_digit hd

/-- One run of digits after another. -/
theorem append (hc : Spells base cs m) (hd : Spells base ds n) :
    Spells base (cs ++ ds) (m * base ^ ds.length + n) := by
  induction hd with
  | one hd => simpa using hc.more hd
  | @more ds n c d _ hd ih =>
    have h := ih.more hd
    rw [List.append_assoc] at h
    rw [List.length_append, List.length_singleton]
    rwa [Nat.add_mul, Nat.mul_assoc, ← Nat.pow_succ, Nat.add_assoc] at h

theorem zero (hb : 0 < base) : Spells base ['0'] 0 := by
  refine .one (digitValue?_eq_some.2 ⟨?_, hb⟩)
  decide +kernel

/-- Zeros in front change nothing. -/
theorem zeros (hb : 0 < base) (h : Spells base cs n) (k : Nat) :
    Spells base (List.replicate k '0' ++ cs) n := by
  induction k with
  | zero => exact h
  | succ k ih => simpa [List.replicate_succ] using (zero hb).append ih

theorem zeroPad (hb : 0 < base) (h : Spells base cs n) (width : Nat) : Spells base (zeroPad width cs) n :=
  h.zeros hb _

/-- What keeps the value of every digit keeps that of the numeral. -/
theorem map_iff {f : Char → Char} (hf : ∀ c, digitValue? base (f c) = digitValue? base c) :
    Spells base (cs.map f) n ↔ Spells base cs n := by
  constructor
  · intro h
    generalize hds : cs.map f = ds at h
    induction h generalizing cs with
    | one hd =>
      obtain ⟨c, rfl, rfl⟩ := List.map_eq_singleton_iff.1 hds
      exact .one (by rwa [← hf])
    | more _ hd ih =>
      obtain ⟨cs, l, rfl, hcs, hl⟩ := List.map_eq_append_iff.1 hds
      obtain ⟨c, rfl, rfl⟩ := List.map_eq_singleton_iff.1 hl
      exact (ih hcs).more (by rwa [← hf])
  · intro h
    induction h with
    | one hd => exact .one (by rwa [hf])
    | more _ hd ih =>
      rw [List.map_append]
      exact ih.more (by rwa [hf])

/-- A run of digits is read as the number. -/
theorem digits? (hb : base ≤ 16) (h : Spells base cs n) : digits? base cs = some n := by
  induction h with
  | one hd => simp [Numeral.digits?, hd, digitsFrom?]
  | more h hd ih =>
    obtain ⟨a, rest, rfl⟩ := List.exists_cons_of_ne_nil h.ne_nil
    obtain ⟨b, ha, hrest⟩ := Option.bind_eq_some_iff.1 ih
    exact Option.bind_eq_some_iff.2 ⟨b, ha, digitsFrom?_concat hb hrest hd⟩

theorem leadingDigits? (hb : base ≤ 16) (h : Spells base cs n) : leadingDigits? base cs = some cs.length := by
  have hall : ∀ c ∈ cs, c ≠ '_' ∧ (digitValue? base c).isSome := fun c hc =>
    ⟨fun he => h.not_mark hb hc (by simp [he]), Option.isSome_iff_exists.2 (h.digit c hc)⟩
  clear h
  induction cs with
  | nil => rfl
  | cons c cs ih =>
    obtain ⟨⟨hne, hsome⟩, hrest⟩ := List.forall_mem_cons.1 hall
    rw [Numeral.leadingDigits?.eq_4 _ _ _ (fun h _ => hne h) fun _ _ h _ => hne h]
    simp [hsome, ih hrest]

end Spells

/-- The digits of a number spell it. -/
theorem spells_toDigits (hb : 1 < base) (hb' : base ≤ 16) (n : Nat) : Spells base (Nat.toDigits base n) n := by
  induction n using Nat.strongRecOn with
  | ind n ih =>
    rw [Nat.toDigits_eq_if hb]
    split
    · next hn => exact .one (digitValue?_digitChar hb' hn)
    · next hn =>
      have hmore := (ih (n / base) (Nat.div_lt_self (by omega) hb)).more
        (digitValue?_digitChar hb' (Nat.mod_lt n (by omega)))
      rwa [Nat.div_add_mod'] at hmore

/-- So do they in upper case. -/
theorem spells_upperHexDigits (n : Nat) : Spells 16 (upperHexDigits n) n :=
  (Spells.map_iff digitValue?_toUpper).2 (spells_toDigits (by decide) (by decide) n)

/-! ## Long numerals -/

theorem writingLimit_eq : writingLimit = 10 ^ maxDigits := by
  unfold writingLimit
  generalize maxDigits = k
  rfl

/-- An integer that can be written has no more digits than can be read. -/
theorem length_of_isWritable {i : Int} (h : isWritable i) : (Nat.toDigits 10 i.natAbs).length ≤ maxDigits := by
  rw [Nat.length_toDigits_le_iff (by decide) (by decide), ← writingLimit_eq]
  exact of_decide_eq_true h

/-! ## Signs -/

/-- The signs that a numeral for an integer may have. -/
def signs (i : Int) : List (List Char) :=
  if i < 0 then [['-']] else if i = 0 then [[], ['+'], ['-']] else [[], ['+']]

theorem plain_mem_signs (n : Nat) : [] ∈ signs n := by
  rw [signs, if_neg (by omega)]
  split <;> simp

/-- A sign is cut off, and with it the magnitude of the integer makes the integer. -/
theorem signed_append {i : Int} {sign body : List Char} (hs : sign ∈ signs i)
    (hbody : ∀ c ∈ body.head?, c ≠ '+' ∧ c ≠ '-') :
    ∃ negative, signed (sign ++ body) = (negative, body) ∧
      (if negative then -(i.natAbs : Int) else i.natAbs) = i := by
  have hplain : signed body = (false, body) := by
    cases body with
    | nil => rfl
    | cons c cs =>
      obtain ⟨hplus, hminus⟩ := hbody c rfl
      exact signed.eq_3 _ (fun _ h => hminus (List.cons.inj h).1) fun _ h => hplus (List.cons.inj h).1
  unfold signs at hs
  split at hs
  · next hi =>
    obtain rfl := List.mem_singleton.1 hs
    exact ⟨true, rfl, by rw [if_pos rfl]; omega⟩
  · split at hs
    · next hi =>
      subst hi
      simp only [List.mem_cons, List.not_mem_nil, or_false] at hs
      rcases hs with rfl | rfl | rfl
      exacts [⟨false, hplain, rfl⟩, ⟨false, rfl, rfl⟩, ⟨true, rfl, rfl⟩]
    · have hsame : (if false then -(i.natAbs : Int) else i.natAbs) = i := by
        rw [if_neg Bool.false_ne_true]
        omega
      simp only [List.mem_cons, List.not_mem_nil, or_false] at hs
      rcases hs with rfl | rfl
      exacts [⟨false, hplain, hsame⟩, ⟨false, rfl, hsame⟩]

theorem mem_sign {i : Int} {sign : List Char} (hs : sign ∈ signs i) {c : Char} (hc : c ∈ sign) :
    c = '+' ∨ c = '-' := by
  unfold signs at hs
  split at hs
  · obtain rfl := List.mem_singleton.1 hs
    exact .inr (List.mem_singleton.1 hc)
  · split at hs <;> grind

/-! ## Reading -/

section Reading

variable {i : Int} {sign ds : List Char} {n : Nat}

theorem trimBy_signed {body : List Char} (hs : sign ∈ signs i) (hmargin : ∀ c ∈ body, isMargin c = false) :
    trimBy isMargin (sign ++ body) = sign ++ body := by
  refine trimBy_of_forall fun c hc => (List.mem_append.1 hc).elim (fun hc => ?_) (hmargin c)
  rcases mem_sign hs hc with rfl | rfl <;> decide

/-- A sign and a body that denotes the magnitude are read as the integer. -/
theorem readChars?_of_body {body : List Char} (hs : sign ∈ signs i)
    (hhead : ∀ c ∈ body.head?, c ≠ '+' ∧ c ≠ '-')
    (hmargin : ∀ c ∈ body, isMargin c = false) (hread : digits? base (unmarked base body) = some i.natAbs) :
    readChars? base (sign ++ body) = some i := by
  obtain ⟨negative, hcut, hvalue⟩ := signed_append hs hhead
  rw [readChars?, trimBy_signed hs hmargin, hcut]
  dsimp only
  rw [hread]
  exact congrArg some hvalue

theorem Spells.head_not_sign (h : Spells base ds n) (hb : base ≤ 16) :
    ∀ c ∈ ds.head?, c ≠ '+' ∧ c ≠ '-' := by
  intro c hc
  have hmark := h.not_mark hb (List.mem_of_mem_head? hc)
  simp only [List.mem_cons, not_or] at hmark
  exact ⟨hmark.2.1, hmark.2.2.1⟩

/-- No mark of base 16 is cut off a run of digits. -/
theorem Spells.unmarked (h : Spells base ds n) (hb : base ≤ 16) : unmarked base ds = ds := by
  unfold Numeral.unmarked
  split
  · next x rest =>
    have hx := h.not_mark hb (c := x) (by simp)
    simp only [List.mem_cons, not_or] at hx
    exact if_neg fun hmark => hmark.2.elim hx.2.2.2.1 hx.2.2.2.2.1
  · rfl

theorem readChars_decimal (hs : sign ∈ signs i) (h : Spells 10 ds i.natAbs) (hlen : ds.length ≤ maxDigits) :
    readChars 10 (sign ++ ds) = .ok i := by
  have hread : readChars? 10 (sign ++ ds) = some i :=
    readChars?_of_body hs (h.head_not_sign (by decide)) (fun _ => h.not_margin)
      (by rw [h.unmarked (by decide), h.digits? (by decide)])
  have hexcess : excess? (sign ++ ds) = none := by
    rw [excess?, trimBy_signed hs fun _ => h.not_margin]
    obtain ⟨negative, hcut, -⟩ := signed_append hs (h.head_not_sign (by decide))
    rw [hcut]
    split
    · rfl
    · rw [h.leadingDigits? (by decide)]
      exact Option.filter_some_neg (by simpa using hlen)
  simp [readChars, hexcess, hread]

/-- In base 16 the mark in front of the digits is skipped. -/
theorem readChars_marked {x : Char} (hs : sign ∈ signs i) (hx : x = 'x' ∨ x = 'X')
    (h : Spells 16 ds i.natAbs) : readChars 16 (sign ++ '0' :: x :: ds) = .ok i := by
  have hmargin : ∀ c ∈ '0' :: x :: ds, isMargin c = false := by
    refine List.forall_mem_cons.2 ⟨by decide, List.forall_mem_cons.2 ⟨?_, fun _ => h.not_margin⟩⟩
    rcases hx with rfl | rfl <;> decide
  have hskip : unmarked 16 ('0' :: x :: ds) = ds := by
    unfold unmarked
    simp only [hx, and_self, if_true]
    split
    · exact absurd (h.not_mark (by decide) List.mem_cons_self) (by simp)
    · rfl
  have hread : readChars? 16 (sign ++ '0' :: x :: ds) = some i :=
    readChars?_of_body hs (by simp) hmargin (by rw [hskip, h.digits? (by decide)])
  simp [readChars, hread]

theorem readChars_digits (h : Spells 16 ds n) : readChars 16 ds = .ok (n : Int) := by
  have hread : readChars? 16 ([] ++ ds) = some (n : Int) :=
    readChars?_of_body (plain_mem_signs n) (h.head_not_sign (by decide)) (fun _ => h.not_margin)
      (by rw [h.unmarked (by decide), h.digits? (by decide), Int.natAbs_natCast])
  rw [List.nil_append] at hread
  simp [readChars, hread]

end Reading

end PhaseMachine.Numeral
