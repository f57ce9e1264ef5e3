/-
What an encoding tells. The first two digits of a token are the opcode and the other four, if there are
any, one number: the address or both operand bytes. So a token determines opcode and payload, and no
more. In a listing the token stands in groups of two.
-/
import PhaseMachine.Proofs.Instruction.Shown
import PhaseMachine.Proofs.Numeral.Spelling
import Mathlib.Data.List.Nodup

namespace PhaseMachine

open Numeral Text

/-! ## Words -/

def upperDigits : List Char :=
  "0123456789ABCDEF".toList

/-- The characters are so many upper-case hexadecimal digits and denote the number. -/
structure IsWord (width n : Nat) (cs : List Char) : Prop where
  length : cs.length = width
  upper : ∀ c ∈ cs, c ∈ upperDigits
  spells : Spells 16 cs n

theorem mem_toDigits {base n : Nat} (hb : 1 < base) {c : Char} (hc : c ∈ Nat.toDigits base n) :
    ∃ d < base, c = d.digitChar := by
  induction n using Nat.strongRecOn with
  | ind n ih =>
    rw [Nat.toDigits_eq_if hb] at hc
    split at hc
    · next hn => exact ⟨n, hn, List.mem_singleton.1 hc⟩
    · rcases List.mem_append.1 hc with hc | hc
      · exact ih (n / base) (Nat.div_lt_self (by omega) hb) hc
      · exact ⟨n % base, Nat.mod_lt n (by omega), List.mem_singleton.1 hc⟩

theorem isWord_hex {width n : Nat} (hw : 0 < width) (hn : n < 16 ^ width) :
    IsWord width n (hex width n).toList := by
  have hlen : (upperHexDigits n).length ≤ width := by
    rw [upperHexDigits, List.length_map]
    exact (Nat.length_toDigits_le_iff (by decide) hw).2 hn
  have hdigit : ∀ d < 16, d.digitChar.toUpper ∈ upperDigits := by decide
  have hex_eq : (hex width n).toList = zeroPad width (upperHexDigits n) := String.toList_ofList
  rw [hex_eq]
  refine ⟨?_, fun c hc => ?_, (spells_upperHexDigits n).zeroPad (by decide) width⟩
  · rw [zeroPad, List.length_append, List.length_replicate]
    omega
  · rcases List.mem_append.1 hc with hc | hc
    · exact (List.eq_of_mem_replicate hc) ▸ by decide
    · obtain ⟨a, ha, rfl⟩ := List.mem_map.1 hc
      obtain ⟨d, hd, rfl⟩ := mem_toDigits (by decide) ha
      exact hdigit d hd

theorem upper_eq {c c' : Char} {d : Nat} (hc : c ∈ upperDigits) (hc' : c' ∈ upperDigits)
    (h : digitValue? 16 c = some d) (h' : digitValue? 16 c' = some d) : c = c' := by
  have hdistinct : (upperDigits.map (digitValue? 16)).Nodup := by decide +kernel
  exact List.inj_on_of_nodup_map hdistinct hc hc' (h.trans h'.symm)

/-- Runs of upper-case digits of one length and value are the same: their last digits are, and so are
the runs before them. -/
theorem upper_unique {n : Nat} {cs ds : List Char} (hc : Spells 16 cs n) (hd : Spells 16 ds n)
    (hlen : cs.length = ds.length) (hcs : ∀ c ∈ cs, c ∈ upperDigits) (hds : ∀ c ∈ ds, c ∈ upperDigits) :
    cs = ds := by
  induction hc generalizing ds with
  | one h =>
    cases hd with
    | one h' => rw [upper_eq (hcs _ (by simp)) (hds _ (by simp)) h h']
    | more hd _ => exact absurd hlen (by simpa using hd.ne_nil)
  | @more cs m c d hc h ih =>
    generalize hn : m * 16 + d = n at hd
    cases hd with
    | one _ => exact absurd hlen (by simpa using hc.ne_nil)
    | @more ds m' c' d' hd h' =>
      have hlt := (digitValue?_eq_some.1 h).2
      have hlt' := (digitValue?_eq_some.1 h').2
      obtain rfl : m = m' := by omega
      obtain rfl : d = d' := by omega
      obtain rfl : c = c' := upper_eq (hcs c (by simp)) (hds c' (by simp)) h h'
      rw [ih hd (by simpa using hlen) (fun a ha => hcs a (by simp [ha])) fun a ha => hds a (by simp [ha])]

namespace IsWord

variable {width width' m n : Nat} {cs ds : List Char}

theorem append (hc : IsWord width m cs) (hd : IsWord width' n ds) :
    IsWord (width + width') (m * 16 ^ width' + n) (cs ++ ds) where
  length := by rw [List.length_append, hc.length, hd.length]
  upper c h := (List.mem_append.1 h).elim (hc.upper c) (hd.upper c)
  spells := hd.length ▸ hc.spells.append hd.spells

theorem read (h : IsWord width n cs) : Numeral.read 16 (String.ofList cs) = .ok (n : Int) := by
  rw [Numeral.read, String.toList_ofList]
  exact readChars_digits h.spells

theorem value_eq (hm : IsWord width m cs) (hn : IsWord width' n cs) : m = n :=
  Option.some.inj ((hm.spells.digits? (by decide)).symm.trans (hn.spells.digits? (by decide)))

/-- A number has one word of a width. -/
theorem unique (hc : IsWord width n cs) (hd : IsWord width n ds) : cs = ds :=
  upper_unique hc.spells hd.spells (hc.length.trans hd.length.symm) hc.upper hd.upper

end IsWord

/-! ## Tokens -/

theorem Opcode.encoding_inj {o o' : Opcode} (h : o.encoding = o'.encoding) : o = o' := by
  cases o <;> cases o' <;> first | rfl | cases h

namespace Instruction

/-- The number after the opcode: the address, or else the bytes of two operands. -/
def payload? (i : Instruction) : Option Int :=
  match i.address, i.operand1, i.operand2 with
  | .given a, _, _ => some (a % 65536)
  | _, some a, some b => some (256 * a.byte + b.byte)
  | _, _, _ => none

/-- The characters are the payload as two bytes. There are none if there is no payload. -/
def IsPayload : Option Int → List Char → Prop
  | none, cs => cs = []
  | some p, cs => ∃ n : Nat, p = n ∧ IsWord 4 n cs

theorem IsPayload.value_eq {p q : Option Int} {cs : List Char} (hp : IsPayload p cs) (hq : IsPayload q cs) :
    p = q := by
  cases p with
  | none =>
    obtain rfl : cs = [] := hp
    cases q with
    | none => rfl
    | some q =>
      obtain ⟨n, -, hword⟩ := hq
      cases hword.length
  | some p =>
    obtain ⟨m, rfl, hm⟩ := hp
    cases q with
    | none =>
      obtain rfl : cs = [] := hq
      cases hm.length
    | some q =>
      obtain ⟨n, rfl, hn⟩ := hq
      rw [hm.value_eq hn]

theorem IsPayload.unique {p : Option Int} {cs ds : List Char} (hc : IsPayload p cs) (hd : IsPayload p ds) :
    cs = ds := by
  cases p with
  | none => exact Eq.trans hc (Eq.symm hd)
  | some p =>
    obtain ⟨m, rfl, hm⟩ := hc
    obtain ⟨n, hn, hd⟩ := hd
    obtain rfl : m = n := Int.ofNat.inj hn
    exact hm.unique hd

theorem isPayload_operands {a b : Operand} :
    IsPayload (some (256 * a.byte + b.byte)) (hex 2 a.byte ++ hex 2 b.byte).toList := by
  have hbyte : ∀ o : Operand, ∃ n < 256, o.byte = (n : Nat) := by
    intro o
    cases o with
    | literal value => exact ⟨(value % 256).toNat, by omega, by simp only [Operand.byte]; omega⟩
    | register name => exact ⟨0, by decide, rfl⟩
  obtain ⟨m, hm, ha⟩ := hbyte a
  obtain ⟨n, hn, hb⟩ := hbyte b
  refine ⟨m * 16 ^ 2 + n, by rw [ha, hb]; omega, ?_⟩
  rw [ha, hb, String.toList_append]
  have hwide : 0 < 2 := by decide
  exact (isWord_hex hwide hm).append (isWord_hex hwide hn)

theorem isPayload_address (a : Int) : IsPayload (some (a % 65536)) (hex 4 (a % 65536)).toList := by
  obtain ⟨n, hn⟩ : ∃ n : Nat, a % 65536 = n := ⟨(a % 65536).toNat, by omega⟩
  refine ⟨n, hn, ?_⟩
  rw [hn]
  exact isWord_hex (by decide) (by omega)

theorem isWord_opcode (o : Opcode) : IsWord 2 o.encoding (hex 2 o.encoding).toList :=
  isWord_hex (by decide) (by cases o <;> decide)

/-- The token of a well-typed instruction is the opcode in two digits and the payload behind it. -/
theorem token_parts {i : Instruction} (hi : i.WellTyped) : ∃ token cs ds, i.token = .ok token ∧
    token.toList = cs ++ ds ∧ IsWord 2 i.opcode.encoding cs ∧ IsPayload i.payload? ds := by
  have htoken : ∃ payload, i.token = .ok (hex 2 i.opcode.encoding ++ payload) ∧
      IsPayload i.payload? payload.toList := by
    unfold token payload?
    cases ha : i.address with
    | given a => exact ⟨_, rfl, isPayload_address a⟩
    | foreign v =>
      have hproper : i.address.isProper = true := hi.2
      rw [ha] at hproper
      cases hproper
    | absent =>
      refine ⟨i.operandPayload, rfl, ?_⟩
      unfold operandPayload
      cases i.operand1 <;> cases i.operand2
      case some.some a b => exact isPayload_operands
      all_goals rfl
  obtain ⟨payload, htoken, hpayload⟩ := htoken
  exact ⟨_, _, _, htoken, String.toList_append, isWord_opcode i.opcode, hpayload⟩

/-- What can be read from the token of an instruction. -/
structure Encodes (i : Instruction) (token : String) : Prop where
  upper : ∀ c ∈ token.toList, c ∈ upperDigits
  opcode : Numeral.read 16 (String.ofList (token.toList.take 2)) = .ok (i.opcode.encoding : Int)
  short : i.payload? = none → token.length = 2
  long : ∀ p, i.payload? = some p →
    token.length = 6 ∧ Numeral.read 16 (String.ofList (token.toList.drop 2)) = .ok p

theorem token_encodes {i : Instruction} (hi : i.WellTyped) :
    ∃ token, i.token = .ok token ∧ i.Encodes token := by
  obtain ⟨token, cs, ds, htoken, hsplit, hopcode, hpayload⟩ := token_parts hi
  have htake : token.toList.take 2 = cs := by rw [hsplit, ← hopcode.length, List.take_left]
  have hdrop : token.toList.drop 2 = ds := by rw [hsplit, ← hopcode.length, List.drop_left]
  have hlen : token.length = 2 + ds.length := by
    rw [← String.length_toList, hsplit, List.length_append, hopcode.length]
  refine ⟨token, htoken, fun c hc => ?_, by rw [htake, hopcode.read], fun hnone => ?_, fun p hp => ?_⟩
  · rw [hsplit] at hc
    rcases List.mem_append.1 hc with hc | hc
    · exact hopcode.upper c hc
    · cases hp : i.payload? with
      | none =>
        rw [hp] at hpayload
        obtain rfl : ds = [] := hpayload
        cases hc
      | some p =>
        rw [hp] at hpayload
        obtain ⟨n, -, hword⟩ := hpayload
        exact hword.upper c hc
  · rw [hnone] at hpayload
    obtain rfl : ds = [] := hpayload
    exact hlen
  · rw [hp] at hpayload
    obtain ⟨n, rfl, hword⟩ := hpayload
    exact ⟨by rw [hlen, hword.length], by rw [hdrop, hword.read]⟩

/-- Two instructions have one token exactly if they agree in opcode and payload. -/
theorem token_eq_iff {i j : Instruction} (hi : i.WellTyped) (hj : j.WellTyped) :
    i.token = j.token ↔ i.opcode = j.opcode ∧ i.payload? = j.payload? := by
  obtain ⟨s, as, bs, hs, hsplit, hopcode, hpayload⟩ := token_parts hi
  obtain ⟨t, cs, ds, ht, hsplit', hopcode', hpayload'⟩ := token_parts hj
  rw [hs, ht, Except.ok.injEq, ← String.toList_inj, hsplit, hsplit']
  constructor
  · intro h
    obtain ⟨rfl, rfl⟩ := List.append_inj h (hopcode.length.trans hopcode'.length.symm)
    exact ⟨Opcode.encoding_inj (hopcode.value_eq hopcode'), hpayload.value_eq hpayload'⟩
  · rintro ⟨ho, hp⟩
    rw [ho] at hopcode
    rw [hp] at hpayload
    rw [hopcode.unique hopcode', hpayload.unique hpayload']

end Instruction

/-! ## Groups of two -/

theorem ofCode_toNat {c : Char} (hc : c ≠ mark) : ofCode c.toNat = [c] := by
  have hvalid : c.toNat.isValidChar := c.valid
  have hplain : isSurrogate c.toNat = false := by
    simp only [isSurrogate, Bool.and_eq_false_iff, decide_eq_false_iff_not]
    unfold Nat.isValidChar at hvalid
    omega
  have hne : c.toNat ≠ mark.toNat := fun h => hc (Char.toNat_inj.1 h)
  simp [ofCode, hplain, hne]

/-- Characters that count for themselves are listed one by one. -/
theorem characters_of_plain {cs : List Char} (h : ∀ c ∈ cs, c ≠ mark) :
    characters cs = cs.map fun c => String.ofList [c] := by
  induction cs with
  | nil => rfl
  | cons c cs ih =>
    obtain ⟨hc, hcs⟩ := List.forall_mem_cons.1 h
    have hrest := ih hcs
    unfold characters at hrest ⊢
    rw [codes_cons hc, List.map_cons, hrest, ofCode_toNat hc, List.map_cons]

/-- The characters in groups of two, if there is an even number of them. -/
theorem pairs_of_even (cs : List Char) (heven : cs.length % 2 = 0) :
    ∃ groups : List (List Char), pairs (cs.map fun c => String.ofList [c]) = groups.map String.ofList ∧
      groups.flatten = cs ∧ ∀ g ∈ groups, g.length = 2 := by
  match cs with
  | [] => exact ⟨[], rfl, rfl, by simp⟩
  | [_] => cases heven
  | a :: b :: cs =>
    obtain ⟨groups, hpairs, hflat, htwo⟩ := pairs_of_even cs (by rwa [← Nat.add_mod_right])
    refine ⟨[a, b] :: groups, ?_, by rw [List.flatten_cons, hflat]; rfl, List.forall_mem_cons.2 ⟨rfl, htwo⟩⟩
    have hjoin : String.ofList [a] ++ String.ofList [b] = String.ofList [a, b] := String.ofList_append.symm
    rw [List.map_cons, List.map_cons, pairs, hpairs, hjoin, List.map_cons]

theorem filter_intercalate {groups : List (List Char)} (h : ∀ g ∈ groups, ∀ c ∈ g, c ≠ ' ') :
    ([' '].intercalate groups).filter (· ≠ ' ') = groups.flatten := by
  have hkept : ∀ g : List Char, (∀ c ∈ g, c ≠ ' ') → g.filter (· ≠ ' ') = g := fun g hg =>
    List.filter_eq_self.2 fun c hc => decide_eq_true (hg c hc)
  induction groups with
  | nil => rfl
  | cons g rest ih =>
    obtain ⟨hg, hrest⟩ := List.forall_mem_cons.1 h
    cases rest with
    | nil => rw [List.intercalate_singleton, hkept g hg, List.flatten_singleton]
    | cons g' rest =>
      rw [List.intercalate_cons_cons, List.filter_append, List.filter_append, hkept g hg, ih hrest]
      simp

/-- A token of two or six digits stands in groups of two, with a blank between one and the next. -/
theorem splitBytes_groups {token : String} (hupper : ∀ c ∈ token.toList, c ∈ upperDigits)
    (heven : token.length % 2 = 0) : ∃ groups : List (List Char),
      (splitBytes token).toList = [' '].intercalate groups ∧ groups.flatten = token.toList ∧
      ∀ g ∈ groups, g.length = 2 := by
  have hmark : mark ∉ upperDigits := by decide
  obtain ⟨groups, hpairs, hflat, htwo⟩ := pairs_of_even token.toList (by rwa [String.length_toList])
  refine ⟨groups, ?_, hflat, htwo⟩
  rw [splitBytes, characters_of_plain fun c hc => ne_of_mem_of_not_mem (hupper c hc) hmark, hpairs,
    String.toList_intercalate, List.map_map]
  simp

/-- Without its blanks a split token is the token. -/
theorem filter_splitBytes {token : String} (hupper : ∀ c ∈ token.toList, c ∈ upperDigits)
    (heven : token.length % 2 = 0) : (splitBytes token).toList.filter (· ≠ ' ') = token.toList := by
  have hblank : ' ' ∉ upperDigits := by decide
  obtain ⟨groups, hsplit, hflat, -⟩ := splitBytes_groups hupper heven
  rw [hsplit, filter_intercalate fun g hg c hc => ne_of_mem_of_not_mem (hupper c ?_) hblank, hflat]
  rw [← hflat]
  exact List.mem_flatten.2 ⟨g, hg, hc⟩

/-! ## Listings -/

namespace Instruction

/-- What the line of an instruction shows: its place, its token in groups of two, and its assembly. -/
structure IsListed (i : Instruction) (index : Nat) (line : ListingLine) : Prop where
  index : line.index = index
  token : ∃ token, i.token = .ok token ∧ line.bytes.toList.filter (· ≠ ' ') = token.toList ∧
    ∃ groups : List (List Char), line.bytes.toList = [' '].intercalate groups ∧
      groups.flatten = token.toList ∧ ∀ g ∈ groups, g.length = 2
  mnemonic : i.assembly = .ok line.mnemonic

theorem Encodes.even {i : Instruction} {token : String} (h : i.Encodes token) : token.length % 2 = 0 := by
  cases hp : i.payload? with
  | none => rw [h.short hp]
  | some p => rw [(h.long p hp).1]

theorem listingLine_isListed {i : Instruction} (hi : i.WellTyped) {index : Nat} {line : ListingLine}
    (h : i.listingLine index = .ok line) : i.IsListed index line := by
  obtain ⟨token, htoken, henc⟩ := token_encodes hi
  cases ha : i.assembly with
  | error r =>
    simp only [listingLine, htoken, ha] at h
    cases h
  | ok text =>
    simp only [listingLine, htoken, ha] at h
    obtain rfl := Except.ok.inj h
    exact ⟨rfl,
      ⟨token, htoken, filter_splitBytes henc.upper henc.even, splitBytes_groups henc.upper henc.even⟩, ha⟩

/-- The lines of a listing are those of the instructions, one for each and in order. -/
theorem listingFrom_lines {p : Program} {index : Nat} {lines : List ListingLine}
    (h : listingFrom index p = .ok lines) : lines.length = p.length ∧
      ∀ (k : Nat) i line, p[k]? = some i → lines[k]? = some line → i.listingLine (index + k) = .ok line := by
  induction p generalizing index lines with
  | nil =>
    obtain rfl := Except.ok.inj h
    exact ⟨rfl, fun k i line hi => by simp at hi⟩
  | cons i rest ih =>
    have hcons : listingFrom index (i :: rest) = do
        return (← i.listingLine index) :: (← listingFrom (index + 1) rest) := rfl
    rw [hcons] at h
    cases hl : i.listingLine index with
    | error r => rw [hl] at h; cases h
    | ok line =>
      cases hr : listingFrom (index + 1) rest with
      | error r => rw [hl, hr] at h; cases h
      | ok more =>
        rw [hl, hr] at h
        obtain rfl := Except.ok.inj h
        obtain ⟨hlen, hlines⟩ := ih hr
        refine ⟨by simp [hlen], fun k j other hj hother => ?_⟩
        cases k with
        | zero =>
          simp only [List.getElem?_cons_zero, Option.some.injEq] at hj hother
          rw [← hj, ← hother]
          exact hl
        | succ k =>
          rw [List.getElem?_cons_succ] at hj hother
          have hline := hlines k j other hj hother
          rwa [Nat.add_right_comm] at hline

/-- Opcode and payload can be read back from a token and are all that it tells, and a listing shows the
token of each instruction. There is a listing exactly if all operands can be written. -/
theorem encoding_read_back {i j : Instruction} (hi : i.WellTyped) (hj : j.WellTyped) {p : Program}
    (hp : ∀ k ∈ p, k.WellTyped) :
    (∃ token, i.token = .ok token ∧ i.Encodes token) ∧
    (i.token = j.token ↔ i.opcode = j.opcode ∧ i.payload? = j.payload?) ∧
    ((∃ lines, listing p = .ok lines) ↔ ∀ k ∈ p, k.Shown) ∧
    ∀ lines, listing p = .ok lines → lines.length = p.length ∧
      ∀ (n : Nat) k line, p[n]? = some k → lines[n]? = some line → k.IsListed n line := by
  refine ⟨token_encodes hi, token_eq_iff hi hj, ?_, fun lines h => ?_⟩
  · have hproper : ∀ k ∈ p, k.address.isProper = true := fun k hk => (hp k hk).2
    rw [listing, listingFrom_ok_iff hproper]
    exact forall₂_congr fun k hk => and_iff_right (hp k hk).1
  · obtain ⟨hlen, hlines⟩ := listingFrom_lines h
    refine ⟨hlen, fun n k line hk hline => ?_⟩
    have hshown := hlines n k line hk hline
    rw [Nat.zero_add] at hshown
    exact listingLine_isListed (hp k (List.mem_of_getElem? hk)) hshown

/-- A load from the cell before the first and one of two literals have one token. -/
theorem encoding_read_back_collision :
    let far : Instruction := { opcode := .load, destination := .given "R1", address := .given (-1) }
    let both : Instruction :=
      { opcode := .load, operand1 := some (.literal 511), operand2 := some (.literal (-1)),
        destination := .given "R1" }
    far.token = both.token ∧ ∃ lines, listing [far, both] = .ok lines := by
  intro far both
  have hp : ∀ k ∈ [far, both], k.WellTyped := by decide
  obtain ⟨-, htoken, hlisting, -⟩ := encoding_read_back (hp far (by simp)) (hp both (by simp)) hp
  exact ⟨htoken.2 ⟨rfl, by decide⟩, hlisting.2 (by decide +kernel)⟩

def moveLiteral (x : Int) : Instruction :=
  { opcode := .mov, operand1 := some (.literal x), destination := .given "R1" }

theorem listing_moveLiteral {x : Int} (hx : isWritable x = false) :
    listing [moveLiteral x] = .error .unwritable := by
  have hoperand : shownOperand (some (.literal x)) = .error .unwritable := by
    simp [shownOperand, Operand.isWritable, hx]
  have hassembly : (moveLiteral x).assembly = .error .unwritable := by
    rw [assembly, moveLiteral, hoperand]
    rfl
  have hline : (moveLiteral x).listingLine 0 = .error .unwritable := by
    rw [listingLine, hassembly]
    rfl
  rw [listing, listingFrom, hline]
  rfl

/-- With one digit too many in a literal an instruction has a token, but a program with it no listing. -/
theorem listing_fails_overlong :
    (moveLiteral writingLimit).WellTyped ∧ (moveLiteral writingLimit).token = .ok "0B" ∧
      listing [moveLiteral writingLimit] = .error .unwritable :=
  ⟨by decide, rfl, listing_moveLiteral (by decide +kernel)⟩

end Instruction

end PhaseMachine
