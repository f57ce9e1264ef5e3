/-
Which operand a text denotes. A text is to be read as an integer if it is a numeral of one, and as a name
if it is not; only nothing is refused. So are all texts read but those that look like numerals behind
their sign: the mark of base 16 without digits after it, digits of which one has no decimal value, and
more decimal digits than can be read.
-/
import PhaseMachine.Proofs.Instruction.Parsing
import PhaseMachine.Proofs.Numeral.Reading

namespace PhaseMachine.Operand

open Numeral Text

/-! ## Numerals and names -/

/-- The text is a numeral of the integer: a sign that the integer may have, then decimal digits or the mark
of base 16 and hexadecimal digits, which spell its magnitude. -/
inductive Denotes : List Char → Int → Prop
  | decimal {sign ds : List Char} {i : Int} : sign ∈ signs i → Spells 10 ds i.natAbs → Denotes (sign ++ ds) i
  | hexadecimal {sign ds : List Char} {i : Int} {x : Char} : sign ∈ signs i → x = 'x' ∨ x = 'X' →
    Spells 16 ds i.natAbs → Denotes (sign ++ '0' :: x :: ds) i

/-- A text without margins is refused only if it is empty; it is read as the integer that it is a numeral
of, and as a name if it is none. -/
structure Classifies (cs : List Char) (result : Except Refusal Operand) : Prop where
  refused : ∀ r, result = .error r → cs = []
  numeral : ∀ i, Denotes cs i → result = .ok (literal i)
  name : cs ≠ [] → (∀ i, ¬ Denotes cs i) → result = .ok (register (String.ofList cs))

/-- What looks like a numeral behind its sign, and is read in another way. -/
inductive Misread : List Char → Prop
  /-- The mark of base 16 is followed by something else than digits, or by nothing. -/
  | marked {x : Char} {rest : List Char} : x = 'x' ∨ x = 'X' → (∀ n, ¬ Spells 16 rest n) → Misread ('0' :: x :: rest)
  /-- One of the digits has no decimal value. -/
  | digits {ds : List Char} {c : Char} : (∀ d ∈ ds, isDigit d) → c ∈ ds → isDecimal c = false → Misread ds
  /-- There are too many decimal digits. -/
  | overlong {ds : List Char} {n : Nat} : Spells 10 ds n → maxDigits < ds.length → Misread ds

variable {s : String} {cs ds : List Char} {i : Int} {n : Nat}

theorem hasHexMark_iff :
    hasHexMark cs = true ↔ ∃ x rest, cs = '0' :: x :: rest ∧ (x = 'x' ∨ x = 'X') := by
  constructor
  · intro h
    unfold hasHexMark at h
    split at h
    · next x rest => exact ⟨x, rest, rfl, by simpa using h⟩
    · cases h
  · rintro ⟨x, rest, rfl, hx⟩
    simpa [hasHexMark] using hx

theorem isDigits_iff : isDigits cs = true ↔ cs ≠ [] ∧ ∀ c ∈ cs, isDigit c := by
  simp [isDigits, List.all_eq_true]

/-- The mark of base 16 does not stand among digits. -/
theorem hasHexMark_of_digits (h : ∀ c ∈ cs, isDigit c) : hasHexMark cs = false := by
  rw [Bool.eq_false_iff, Ne, hasHexMark_iff]
  rintro ⟨x, rest, rfl, hx⟩
  have hdigit := h x (by simp)
  rcases hx with rfl | rfl <;> exact absurd hdigit (by decide)

/-! ## Numerals and their signs -/

theorem natAbs_signed (negative : Bool) (n : Nat) : (if negative then -(n : Int) else n).natAbs = n := by
  split <;> omega

/-- Decimal digits behind a sign are a numeral. -/
theorem denotes_decimal (h : Spells 10 (unsigned cs) n) : Denotes cs (if (signed cs).1 then -(n : Int) else n) := by
  obtain ⟨sign, hcut, hs⟩ := exists_sign cs
  rw [unsigned_eq, ← natAbs_signed (signed cs).1 n] at h
  have hdenotes := Denotes.decimal (hs n) h
  rwa [← hcut] at hdenotes

/-- So are the mark of base 16 and its digits. -/
theorem denotes_hexadecimal {x : Char} (hbody : unsigned cs = '0' :: x :: ds) (hx : x = 'x' ∨ x = 'X')
    (h : Spells 16 ds n) : Denotes cs (if (signed cs).1 then -(n : Int) else n) := by
  obtain ⟨sign, hcut, hs⟩ := exists_sign cs
  rw [← natAbs_signed (signed cs).1 n] at h
  have hdenotes := Denotes.hexadecimal (hs n) hx h
  rwa [← hbody, unsigned_eq, ← hcut] at hdenotes

/-- Behind its sign a numeral is a run of digits, or one behind the mark of base 16. -/
theorem Denotes.shape (h : Denotes cs i) : Spells 10 (unsigned cs) i.natAbs ∨
    ∃ x ds, unsigned cs = '0' :: x :: ds ∧ Spells 16 ds i.natAbs := by
  cases h with
  | decimal hs hspells =>
    rw [unsigned_append hs (hspells.head_not_sign (by decide))]
    exact .inl hspells
  | hexadecimal hs _ hspells =>
    rw [unsigned_append hs (by simp)]
    exact .inr ⟨_, _, rfl, hspells⟩

theorem not_underscore_sign {sign : List Char} (hs : sign ∈ signs i) : '_' ∉ sign := fun hmem => by
  rcases mem_sign hs hmem with he | he <;> cases he

/-- Without its underscores, a numeral that is marked with base 16 has the same sign and mark. -/
theorem filter_marked {sign rest : List Char} {x : Char} (hs : sign ∈ signs i) (hx : x = 'x' ∨ x = 'X') :
    (sign ++ '0' :: x :: rest).filter (· ≠ '_') = sign ++ '0' :: x :: rest.filter (· ≠ '_') := by
  rw [List.filter_append, filter_underscore (not_underscore_sign hs)]
  rcases hx with rfl | rfl <;> rfl

/-- No underscore stands in a numeral. -/
theorem Denotes.not_underscore (h : Denotes cs i) : '_' ∉ cs := by
  have hdigits : ∀ {base : Nat} {ds : List Char}, base ≤ 16 → Spells base ds i.natAbs → '_' ∉ ds :=
    fun hb hspells hmem => hspells.not_mark hb hmem (by simp)
  cases h with
  | decimal hs hspells => simp [not_underscore_sign hs, hdigits (by decide) hspells]
  | hexadecimal hs hx hspells =>
    rcases hx with rfl | rfl <;> simp [not_underscore_sign hs, hdigits (by decide) hspells]

/-! ## Reading by shape -/

theorem parse_trim (s : String) : parse (String.ofList (trim s.toList)) = parse s := by
  have htrim : trim (trim s.toList) = trim s.toList := trimBy_trimBy
  simp only [parse, String.toList_ofList, htrim]

theorem parse_of_mark (h : hasHexMark (unsigned (trim s.toList)) = true) :
    parse s = ((readChars 16 (trim s.toList)).map literal).mapError .numeral := by
  simp [parse, h]

theorem parse_of_digits (h : isDigits (unsigned (trim s.toList)) = true) :
    parse s = ((readChars 10 (trim s.toList)).map literal).mapError .numeral := by
  simp [parse, h, hasHexMark_of_digits (isDigits_iff.1 h).2]

theorem parse_of_name (hm : hasHexMark (unsigned (trim s.toList)) = false)
    (hd : isDigits (unsigned (trim s.toList)) = false) (hne : trim s.toList ≠ []) :
    parse s = .ok (register (String.ofList (trim s.toList))) := by
  simp [parse, hm, hd, hne]

/-- Reading a numeral is not refused as reading nothing is. -/
theorem read_ne_blank (base : Nat) (cs : List Char) :
    ((readChars base cs).map literal).mapError .numeral ≠ .error Refusal.blank := by
  cases readChars base cs <;> simp [Except.map, Except.mapError]

theorem parse_eq_blank_iff : parse s = .error .blank ↔ trim s.toList = [] := by
  constructor
  · intro h
    by_contra hne
    cases hm : hasHexMark (unsigned (trim s.toList)) with
    | true => exact read_ne_blank _ _ ((parse_of_mark hm).symm.trans h)
    | false =>
      cases hd : isDigits (unsigned (trim s.toList)) with
      | true => exact read_ne_blank _ _ ((parse_of_digits hd).symm.trans h)
      | false =>
        rw [parse_of_name hm hd hne] at h
        cases h
  · intro h
    simp only [parse, h]
    rfl

/-- A numeral is read as its integer, unless it is too long. -/
theorem parse_of_denotes (h : Denotes (trim s.toList) i) (hread : ¬ Misread (unsigned (trim s.toList))) :
    parse s = .ok (literal i) := by
  have hnothing : ∀ c ∈ ([] : List Char), isBlank c := fun _ hc => absurd hc List.not_mem_nil
  rw [← parse_trim]
  generalize trim s.toList = cs at h hread
  cases h with
  | decimal hs hspells =>
    rw [unsigned_append hs (hspells.head_not_sign (by decide))] at hread
    have hlen := not_lt.1 fun hlt => hread (.overlong hspells hlt)
    simpa using parse_decimal hnothing hnothing hs hspells hlen
  | hexadecimal hs hx hspells =>
    simpa using parse_hexadecimal hnothing hnothing hs hx hspells

/-- What follows the mark of base 16 is read as a numeral even with underscores in it, and refused if it is
none without them. -/
theorem parse_of_marked {x : Char} {rest : List Char} (hbody : unsigned (trim s.toList) = '0' :: x :: rest)
    (hx : x = 'x' ∨ x = 'X') (hnot : ∀ n, ¬ Spells 16 rest n) :
    (∃ r, parse s = .error (.numeral r)) ∨
      ∃ i, '_' ∈ trim s.toList ∧ Denotes ((trim s.toList).filter (· ≠ '_')) i ∧ parse s = .ok (literal i) := by
  have hmark : hasHexMark (unsigned (trim s.toList)) = true := hasHexMark_iff.2 ⟨x, rest, hbody, hx⟩
  rw [parse_of_mark hmark]
  cases hread : readChars 16 (trim s.toList) with
  | error r => exact .inl ⟨r, rfl⟩
  | ok i =>
    have hsome := readChars_eq_ok hread
    rw [readChars?_trim, ← unsigned_eq, hbody] at hsome
    obtain ⟨n, hn, rfl⟩ := Option.map_eq_some_iff.1 hsome
    have hspells := spells_of_digits? (by decide) hn
    rw [filter_unmarked hx] at hspells
    obtain ⟨sign, hcut, hs⟩ := exists_sign (trim s.toList)
    rw [← unsigned_eq, hbody] at hcut
    -- without an underscore the digits would be all that follows the mark
    have hunderscore : '_' ∈ trim s.toList := by
      by_contra hnone
      have hrest : '_' ∉ rest := fun hmem => hnone (by rw [hcut]; simp [hmem])
      exact hnot n (filter_underscore hrest ▸ hspells)
    have hfilter := (congrArg (List.filter (· ≠ '_')) hcut).trans (filter_marked (hs n) hx)
    refine .inr ⟨_, hunderscore, ?_, rfl⟩
    rw [hfilter]
    exact .hexadecimal (hs n) hx (by rwa [natAbs_signed])

/-- Digits of which one has no decimal value are refused. -/
theorem parse_of_nondecimal {c : Char} (hall : ∀ d ∈ unsigned (trim s.toList), isDigit d)
    (hc : c ∈ unsigned (trim s.toList)) (hnot : isDecimal c = false) : ∃ r, parse s = .error (.numeral r) := by
  have hne : unsigned (trim s.toList) ≠ [] := List.ne_nil_of_mem hc
  have hnone : readChars? 10 (trim s.toList) = none := by
    rw [readChars?_trim, ← unsigned_eq, Option.map_eq_none_iff, Option.eq_none_iff_forall_ne_some]
    intro n hn
    rw [unmarked_of_ne (by decide)] at hn
    have hne : c ≠ '_' := by
      rintro rfl
      exact absurd (hall _ hc) (by decide)
    obtain ⟨d, hd⟩ := (spells_of_digits? (by decide) hn).digit c (List.mem_filter.2 ⟨hc, by simpa using hne⟩)
    rw [isDecimal_of_digit hd] at hnot
    cases hnot
  obtain ⟨r, hr⟩ := readChars_of_none hnone
  rw [parse_of_digits (isDigits_iff.2 ⟨hne, hall⟩), hr]
  exact ⟨r, rfl⟩

/-- Too many digits are refused. -/
theorem parse_of_overlong (h : Spells 10 (unsigned (trim s.toList)) n)
    (hlong : maxDigits < (unsigned (trim s.toList)).length) :
    parse s = .error (.numeral (.tooLong (unsigned (trim s.toList)).length)) := by
  have hall : ∀ c ∈ unsigned (trim s.toList), isDigit c := fun c hc =>
    (h.digit c hc).elim fun _ => isDigit_of_digit
  have hexcess : excess? (trim s.toList) = some (unsigned (trim s.toList)).length := by
    rw [unsigned_eq] at h hlong ⊢
    exact excess?_trim h hlong
  rw [parse_of_digits (isDigits_iff.2 ⟨h.ne_nil, hall⟩), readChars_of_excess hexcess]
  rfl

theorem parse_of_misread (h : Misread (unsigned (trim s.toList))) :
    (∃ r, parse s = .error (.numeral r)) ∨
      ∃ i, '_' ∈ trim s.toList ∧ Denotes ((trim s.toList).filter (· ≠ '_')) i ∧ parse s = .ok (literal i) := by
  generalize hbody : unsigned (trim s.toList) = body at h
  cases h with
  | marked hx hnot => exact parse_of_marked hbody hx hnot
  | digits hall hc hnot =>
    subst hbody
    exact .inl (parse_of_nondecimal hall hc hnot)
  | overlong hspells hlong =>
    subst hbody
    exact .inl ⟨_, parse_of_overlong hspells hlong⟩

/-! ## Every text -/

/-- What is not misread and is no numeral is read as a name. -/
theorem parse_of_not_denotes (hne : trim s.toList ≠ []) (hread : ¬ Misread (unsigned (trim s.toList)))
    (hnot : ∀ i, ¬ Denotes (trim s.toList) i) : parse s = .ok (register (String.ofList (trim s.toList))) := by
  refine parse_of_name (Bool.eq_false_iff.2 fun hm => ?_) (Bool.eq_false_iff.2 fun hd => ?_) hne
  · obtain ⟨x, rest, hbody, hx⟩ := hasHexMark_iff.1 hm
    rw [hbody] at hread
    obtain ⟨n, hn⟩ := not_forall_not.1 fun hnone => hread (.marked hx hnone)
    exact hnot _ (denotes_hexadecimal hbody hx hn)
  · obtain ⟨hbody, hall⟩ := isDigits_iff.1 hd
    have hdecimal : ∀ c ∈ unsigned (trim s.toList), isDecimal c = true := fun c hc => by
      by_contra hc'
      exact hread (.digits hall hc (Bool.eq_false_iff.2 hc'))
    obtain ⟨n, hn⟩ := exists_spells hbody fun c hc => isDecimal_iff.1 (hdecimal c hc)
    exact hnot _ (denotes_decimal hn)

theorem classifies_of_not_misread (hread : ¬ Misread (unsigned (trim s.toList))) :
    Classifies (trim s.toList) (parse s) where
  refused r h := by
    by_contra hne
    by_cases hdenotes : ∃ i, Denotes (trim s.toList) i
    · obtain ⟨i, hi⟩ := hdenotes
      rw [parse_of_denotes hi hread] at h
      cases h
    · rw [parse_of_not_denotes hne hread (not_exists.1 hdenotes)] at h
      cases h
  numeral i h := parse_of_denotes h hread
  name hne hnot := parse_of_not_denotes hne hread hnot

/-- An integer that is read from a text with an underscore is one that the text does not denote. -/
theorem Classifies.not_literal (h : Classifies cs (parse s)) (hunderscore : '_' ∈ cs) :
    parse s ≠ .ok (literal i) := by
  rw [h.name (List.ne_nil_of_mem hunderscore) fun j hj => hj.not_underscore hunderscore]
  simp

/-- Every text is read as the integer of which it is a numeral or else as a name, and refused only if there
is nothing in it, exactly if it does not look like a numeral and is misread. Then it is refused as no
numeral, or read without the underscores that stand behind the mark of base 16. -/
theorem parse_classifies_iff (s : String) :
    (Classifies (trim s.toList) (parse s) ↔ ¬ Misread (unsigned (trim s.toList))) ∧
    (parse s = .error .blank ↔ trim s.toList = []) ∧
    (Misread (unsigned (trim s.toList)) ↔ (∃ r, parse s = .error (.numeral r)) ∨
      ∃ i, '_' ∈ trim s.toList ∧ Denotes ((trim s.toList).filter (· ≠ '_')) i ∧ parse s = .ok (literal i)) := by
  have hclash : Classifies (trim s.toList) (parse s) → ¬ ((∃ r, parse s = .error (.numeral r)) ∨
      ∃ i, '_' ∈ trim s.toList ∧ Denotes ((trim s.toList).filter (· ≠ '_')) i ∧ parse s = .ok (literal i)) := by
    rintro h (⟨r, hr⟩ | ⟨i, hunderscore, -, hi⟩)
    · rw [parse_eq_blank_iff.2 (h.refused _ hr)] at hr
      cases hr
    · exact h.not_literal hunderscore hi
  refine ⟨⟨fun h hmis => hclash h (parse_of_misread hmis), classifies_of_not_misread⟩, parse_eq_blank_iff,
    parse_of_misread, fun h => ?_⟩
  by_contra hread
  exact hclash (classifies_of_not_misread hread) h

/-- A raised two is a digit without a decimal value, and no letter `z` follows the mark of base 16: both
texts are no numerals, but they are refused and not read as names. -/
theorem parse_refuses_raised :
    ((∀ i, ¬ Denotes (trim "²".toList) i) ∧ parse "²" = .error (.numeral (.notANumeral 10 "²")) ∧
      ¬ Classifies (trim "²".toList) (parse "²")) ∧
    (∀ i, ¬ Denotes (trim "0xzz".toList) i) ∧ parse "0xzz" = .error (.numeral (.notANumeral 16 "0xzz")) ∧
      ¬ Classifies (trim "0xzz".toList) (parse "0xzz") := by
  have hraised : parse "²" = .error (.numeral (.notANumeral 10 "²")) := by decide +kernel
  have hmarked : parse "0xzz" = .error (.numeral (.notANumeral 16 "0xzz")) := by decide +kernel
  have hbody : unsigned (trim "²".toList) = ['²'] := by decide +kernel
  have hbody' : unsigned (trim "0xzz".toList) = ['0', 'x', 'z', 'z'] := by decide +kernel
  refine ⟨⟨fun i h => ?_, hraised, fun h => ?_⟩, fun i h => ?_, hmarked, fun h => ?_⟩
  · rcases h.shape with hspells | ⟨x, ds, hcut, -⟩
    · rw [hbody] at hspells
      obtain ⟨d, hd⟩ := hspells.digit '²' (by simp)
      exact absurd (isDecimal_of_digit hd) (by decide)
    · rw [hbody] at hcut
      cases hcut
  · exact absurd (h.refused _ hraised) (by decide +kernel)
  · rcases h.shape with hspells | ⟨x, ds, hcut, hspells⟩
    · rw [hbody'] at hspells
      exact absurd (hspells.not_mark (by decide) (c := 'x') (by simp)) (by simp)
    · rw [hbody'] at hcut
      cases hcut
      obtain ⟨d, hd⟩ := hspells.digit 'z' (by simp)
      have hno : digitValue? 16 'z' = none := by decide +kernel
      rw [hno] at hd
      cases hd
  · exact absurd (h.refused _ hmarked) (by decide +kernel)

end PhaseMachine.Operand
