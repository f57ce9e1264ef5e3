/-
Reading operands. The decimal and the hexadecimal text of an integer, with any white space around
it, is read as the integer. An operand that was read is read again from its own plain text.
-/
import PhaseMachine.Instruction.Operand
import PhaseMachine.Proofs.Numeral.Spelling

namespace PhaseMachine.Operand

open Numeral Text

/-! ## Numerals -/

section Numerals

variable {i : Int} {sign front back ds : List Char}

theorem trim_margins {cs : List Char} (hf : ∀ c ∈ front, isBlank c) (hb : ∀ c ∈ back, isBlank c)
    (hcs : ∀ c ∈ cs, isBlank c = false) : trim (front ++ cs ++ back) = cs :=
  trimBy_margins hf hb (fun c hc => hcs c (List.mem_of_mem_head? hc))
    fun c hc => hcs c (List.mem_of_mem_getLast? hc)

theorem not_blank_signed {body : List Char} (hs : sign ∈ signs i) (hbody : ∀ c ∈ body, isBlank c = false) :
    ∀ c ∈ sign ++ body, isBlank c = false := by
  refine fun c hc => (List.mem_append.1 hc).elim (fun hc => ?_) (hbody c)
  rcases mem_sign hs hc with rfl | rfl <;> decide

theorem unsigned_eq (cs : List Char) : unsigned cs = (signed cs).2 := by
  unfold unsigned signed
  split <;> simp

theorem unsigned_append {body : List Char} (hs : sign ∈ signs i)
    (hhead : ∀ c ∈ body.head?, c ≠ '+' ∧ c ≠ '-') :
    unsigned (sign ++ body) = body := by
  obtain ⟨negative, hcut, -⟩ := signed_append hs hhead
  rw [unsigned_eq, hcut]

theorem hasHexMark_digits {n : Nat} (h : Spells 10 ds n) : hasHexMark ds = false := by
  unfold hasHexMark
  split
  · next x rest =>
    have hx := h.not_mark (by decide) (c := x) (by simp)
    simp only [List.mem_cons, not_or] at hx
    simp [hx]
  · rfl

theorem isDigits_digits {n : Nat} (h : Spells 10 ds n) : isDigits ds := by
  have hall : ∀ c ∈ ds, isDigit c := fun c hc => (h.digit c hc).elim fun _ => isDigit_of_digit
  simp [isDigits, h.ne_nil, List.all_eq_true.2 hall]

/-- A signed run of decimal digits is an integer. -/
theorem parse_decimal (hf : ∀ c ∈ front, isBlank c) (hb : ∀ c ∈ back, isBlank c) (hs : sign ∈ signs i)
    (h : Spells 10 ds i.natAbs) (hlen : ds.length ≤ maxDigits) :
    parse (String.ofList (front ++ (sign ++ ds) ++ back)) = .ok (literal i) := by
  have htrim : trim (front ++ (sign ++ ds) ++ back) = sign ++ ds :=
    trim_margins hf hb (not_blank_signed hs fun _ => h.not_blank)
  have hbody : unsigned (sign ++ ds) = ds := unsigned_append hs (h.head_not_sign (by decide))
  simp only [parse, String.toList_ofList, htrim, hbody, hasHexMark_digits h, isDigits_digits h,
    readChars_decimal hs h hlen]
  rfl

/-- So is a signed run of hexadecimal digits behind the mark. -/
theorem parse_hexadecimal {x : Char} (hf : ∀ c ∈ front, isBlank c) (hb : ∀ c ∈ back, isBlank c)
    (hs : sign ∈ signs i) (hx : x = 'x' ∨ x = 'X') (h : Spells 16 ds i.natAbs) :
    parse (String.ofList (front ++ (sign ++ '0' :: x :: ds) ++ back)) = .ok (literal i) := by
  have hmarked : ∀ c ∈ '0' :: x :: ds, isBlank c = false := by
    refine List.forall_mem_cons.2 ⟨by decide, List.forall_mem_cons.2 ⟨?_, fun _ => h.not_blank⟩⟩
    rcases hx with rfl | rfl <;> decide
  have htrim : trim (front ++ (sign ++ '0' :: x :: ds) ++ back) = sign ++ '0' :: x :: ds :=
    trim_margins hf hb (not_blank_signed hs hmarked)
  have hbody : unsigned (sign ++ '0' :: x :: ds) = '0' :: x :: ds := unsigned_append hs (by simp)
  have hmark : hasHexMark ('0' :: x :: ds) := by simpa [hasHexMark] using hx
  simp only [parse, String.toList_ofList, htrim, hbody, hmark, readChars_marked hs hx h]
  rfl

end Numerals

/-! ## Reading again -/

/-- The plain text of an operand: the integer in base 10, or the name of the register. -/
def source : Operand → String
  | literal value => toString value
  | register name => name

/-- The sign of an integer in its own text. -/
def ownSign (i : Int) : List Char :=
  if i < 0 then ['-'] else []

theorem ownSign_mem (i : Int) : ownSign i ∈ signs i := by
  unfold ownSign signs
  split
  · simp
  · split <;> simp

theorem toList_toString (i : Int) : (toString i).toList = ownSign i ++ Nat.toDigits 10 i.natAbs := by
  rw [Int.toString_eq_repr, Int.repr_eq_if, ownSign]
  by_cases hi : i < 0
  · have habs : (-i).toNat = i.natAbs := by omega
    simp [hi, Int.not_le.2 hi, habs, Nat.toList_repr]
  · have habs : i.toNat = i.natAbs := by omega
    simp [hi, Int.not_lt.1 hi, habs, Nat.toList_repr]

/-- A text that was taken as a name stands in the operand without its margins. -/
theorem parse_eq_register {s name : String} (h : parse s = .ok (register name)) :
    name = String.ofList (trim s.toList) := by
  simp only [parse] at h
  split at h
  · cases hread : readChars 16 (trim s.toList) <;> simp [hread, Except.map, Except.mapError] at h
  · split at h
    · cases hread : readChars 10 (trim s.toList) <;> simp [hread, Except.map, Except.mapError] at h
    · split at h
      · cases h
      · exact (register.inj (Except.ok.inj h)).symm

theorem parse_source_literal {i : Int} (hw : Numeral.isWritable i) :
    parse (literal i).source = .ok (literal i) := by
  have hnothing : ∀ c ∈ ([] : List Char), isBlank c := fun _ hc => absurd hc List.not_mem_nil
  have hread := parse_decimal hnothing hnothing (ownSign_mem i)
    (spells_toDigits (by decide) (by decide) i.natAbs) (length_of_isWritable hw)
  rwa [List.nil_append, List.append_nil, ← toList_toString, String.ofList_toList] at hread

/-- A name is read again as it is: it has no margins that could be taken off, and whether a text is a
numeral is decided without them. -/
theorem parse_source_register {s name : String} (h : parse s = .ok (register name)) :
    parse name = .ok (register name) := by
  have htrim : trim name.toList = trim s.toList := by
    rw [parse_eq_register h, String.toList_ofList]
    exact trimBy_trimBy
  rw [← h]
  simp only [parse, htrim]

/-- A value is read as an operand that its plain text is read as, too. -/
theorem parse_source {v : Value} {o : Operand} (h : ofValue v = .ok (some o)) (hw : o.isWritable) :
    parse o.source = .ok o := by
  cases o with
  | literal i => exact parse_source_literal hw
  | register name =>
    cases v with
    | str s =>
      cases hs : parse s with
      | error r => simp [ofValue, hs, Except.map] at h
      | ok o =>
        obtain rfl : o = register name := by simpa [ofValue, hs, Except.map] using h
        exact parse_source_register hs
    | _ => simp [ofValue] at h

/-- White space, sign, mark and case of a numeral do not show in the operand, and the plain text of an
operand that was read is read as the same operand. -/
theorem parse_canonical {i : Int} {sign front back : List Char} (hs : sign ∈ signs i)
    (hf : ∀ c ∈ front, isBlank c) (hb : ∀ c ∈ back, isBlank c) :
    (Numeral.isWritable i →
      parse (String.ofList (front ++ (sign ++ Nat.toDigits 10 i.natAbs) ++ back)) = .ok (literal i)) ∧
    (∀ x ds, x = 'x' ∨ x = 'X' → ds.map Char.toLower = Nat.toDigits 16 i.natAbs →
      parse (String.ofList (front ++ (sign ++ '0' :: x :: ds) ++ back)) = .ok (literal i)) ∧
    ∀ v o, ofValue v = .ok (some o) → o.isWritable → parse o.source = .ok o := by
  refine ⟨fun hw => ?_, fun x ds hx hds => ?_, fun v o => parse_source⟩
  · exact parse_decimal hf hb hs (spells_toDigits (by decide) (by decide) _) (length_of_isWritable hw)
  · have hspells : Spells 16 ds i.natAbs := by
      rw [← Spells.map_iff digitValue?_toLower, hds]
      exact spells_toDigits (by decide) (by decide) _
    exact parse_hexadecimal hf hb hs hx hspells

/-- A negative integer in both bases among white space, and a name that is read twice. -/
theorem parse_canonical_spaced :
    parse "\t -255 " = .ok (literal (-255)) ∧ parse "\t -0XfF " = .ok (literal (-255)) ∧
      parse "R1" = .ok (register "R1") := by
  have hs : ['-'] ∈ signs (-255) := by decide
  have hf : ∀ c ∈ ['\t', ' '], isBlank c := List.all_eq_true.1 (by decide)
  have hb : ∀ c ∈ [' '], isBlank c := List.all_eq_true.1 (by decide)
  have hread := parse_canonical hs hf hb
  exact ⟨hread.1 (by decide +kernel), hread.2.1 'X' ['f', 'F'] (by decide) (by decide),
    hread.2.2 (.str " R1 ") (register "R1") (by decide) rfl⟩

end PhaseMachine.Operand
