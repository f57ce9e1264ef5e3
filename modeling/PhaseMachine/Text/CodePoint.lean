/-
Code points of texts. A text may hold a surrogate, a code point that no character has. It is kept as
two characters, a mark and a private character that stands for it; the mark itself is kept as two
marks. So a text goes on as a list of characters, and its code points can be read back from it.
-/

namespace PhaseMachine.Text

/-- Whether a code point is one half of a pair that makes a character elsewhere. -/
def isSurrogate (n : Nat) : Bool :=
  0xD800 ≤ n && n ≤ 0xDFFF

/-- The character in front of one that stands for a code point. -/
def mark : Char :=
  Char.ofNat 0x10FFFF

/-- How far the character for a surrogate is from it. -/
def standInOffset : Nat := 0x1000

/-- The characters that a code point is kept as. -/
def ofCode (n : Nat) : List Char :=
  if isSurrogate n then [mark, Char.ofNat (n + standInOffset)]
  else if n = mark.toNat then [mark, mark]
  else [Char.ofNat n]

/-- The code point that a character stands for after a mark. -/
def marked? (c : Char) : Option Nat :=
  if c = mark then some c.toNat
  else if isSurrogate (c.toNat - standInOffset) then some (c.toNat - standInOffset)
  else none

/-- The code points of a text. A mark that nothing stands after counts for itself. -/
def codes : List Char → List Nat
  | [] => []
  | [c] => [c.toNat]
  | c :: d :: cs => match if c = mark then marked? d else none with
    | some n => n :: codes cs
    | none => c.toNat :: codes (d :: cs)

/-- A character that is no mark is a code point of its own. -/
theorem codes_cons {c : Char} (hc : c ≠ mark) (cs : List Char) :
    codes (c :: cs) = c.toNat :: codes cs := by
  cases cs with
  | nil => rfl
  | cons d ds => simp [codes, hc]

/-- The characters of a text, each in the form in which it is kept. -/
def characters (cs : List Char) : List String :=
  (codes cs).map fun n => String.ofList (ofCode n)

/-- A text in which every character counts for itself, in the form in which it is kept. -/
def kept (s : String) : String :=
  String.ofList (s.toList.flatMap fun c => ofCode c.toNat)

/-- A text that is kept, with the replacement character for each surrogate. -/
def shown (s : String) : String :=
  String.ofList ((codes s.toList).map fun n => if isSurrogate n then '\uFFFD' else Char.ofNat n)

end PhaseMachine.Text
