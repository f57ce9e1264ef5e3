/-
Scalars in a text: plain, in single quotes or in double quotes. A scalar may go over several lines;
the line breaks in it are folded.
-/
import PhaseMachine.Text.Character
import PhaseMachine.Text.CodePoint
import PhaseMachine.Yaml.Cursor
import PhaseMachine.Yaml.Plain

namespace PhaseMachine.Yaml

/-! ## Plain scalars -/

/-- The characters that mean something between the nodes of a list or mapping in brackets. -/
def flowMarks : List Char :=
  [',', '[', ']', '\x7b', '\x7d']

/-- Whether a word of a plain scalar ends before a character. -/
def endsWord (flow : Bool) (c : Char) (next : List Char) : Bool :=
  blankNext [c]
    -- a colon ends it only before white space and, in brackets, before a mark
    || c == ':' && (blankNext next || flow && next.head?.any flowMarks.contains)
    || flow && (c == '?' || flowMarks.contains c)

def word (flow : Bool) : List Char → List Char × List Char
  | [] => ([], [])
  | c :: cs =>
    if endsWord flow c cs then ([], c :: cs)
    else
      let (w, rest) := word flow cs
      (c :: w, rest)

/-- What stands between two words for the blanks and line breaks there, the last of them first, and
the place after them. -/
def gapFrom (blanks : Nat) (breaks : List Char) (column line : Nat) :
    List Char → List Char × Cursor
  | [] => ([], ⟨[], column, line⟩)
  | c :: cs =>
    if c = ' ' then gapFrom (blanks + 1) breaks (column + 1) line cs
    else if isBreak c then
      -- a document mark ends them and leaves nothing
      if startsDocumentMark cs then ([], ⟨cs, 0, line + 1⟩)
      else gapFrom blanks (c :: breaks) 0 (line + 1) cs
    else
      (if breaks = [] then List.replicate blanks ' ' else folded breaks.reverse,
        ⟨c :: cs, column, line⟩)

/-- The words of a plain scalar, `n` of them at most. -/
def words (flow : Bool) (least : Nat) : Nat → Cursor → List Char × Cursor
  | 0, c => ([], c)
  | n + 1, c =>
    let (w, rest) := word flow c.rest
    if w.isEmpty then ([], c)
    else
      let (gap, next) := gapFrom 0 [] (c.column + w.length) c.line rest
      -- a comment ends the scalar, and outside brackets a line that starts before the column
      if gap.isEmpty || next.isAt '#' || !flow && next.column < least then (w, next)
      else
        let (more, after) := words flow least n next
        (if more.isEmpty then w else w ++ gap ++ more, after)

/-- The characters that no plain scalar starts with, whatever follows. -/
def reserved : List Char :=
  ",[]\x7b\x7d#&*!|>'\"%@`".toList

/-- Whether a plain scalar may start here. -/
def startsPlain (flow : Bool) : List Char → Bool
  | [] => false
  | c :: cs =>
    -- a dash, and outside brackets a question mark or a colon, starts one unless white space follows
    if c == '-' then !blankNext cs
    else if c == '?' || c == ':' then !flow && !blankNext cs
    else !(blankNext [c] || reserved.contains c)

def plain (flow : Bool) (least : Nat) (c : Cursor) : Except Refusal (String × Cursor) :=
  if !c.atEnd && startsPlain flow c.rest then
    let (text, after) := words flow least c.rest.length c
    .ok (String.ofList text, after)
  else .error .malformed

/-! ## Quoted scalars -/

/-- What was read and may still have to be written, the last of it first: blanks, which count unless a
line ends after them; line breaks; or the line breaks after an escaped one, which all stay. -/
inductive Pending where
  | blanks (reversed : List Char)
  | breaks (reversed : List Char)
  | continued (reversed : List Char)

namespace Pending

def chars : Pending → List Char
  | blanks reversed => reversed.reverse
  | breaks reversed => folded reversed.reverse
  | continued reversed => reversed.reverse

/-- The characters before it, the last of them first, with what is written now. -/
def onto (p : Pending) (done : List Char) : List Char :=
  p.chars.reverse ++ done

/-- A blank at the start of a line does not count. -/
def addBlank (c : Char) : Pending → Pending
  | blanks reversed => blanks (c :: reversed)
  | p => p

def addBreak (c : Char) : Pending → Pending
  | blanks _ => breaks [c]
  | breaks reversed => breaks (c :: reversed)
  | continued reversed => continued (c :: reversed)

end Pending

/-- A scalar in single quotes, from after its first quote, with the characters that are `done`, the
last of them first. -/
def singleQuotedFrom (done : List Char) (pending : Pending) (column line : Nat) :
    List Char → Except Refusal (List Char × Cursor)
  | [] => .error .malformed
  -- two quotes stand for one
  | '\'' :: '\'' :: cs =>
    singleQuotedFrom ('\'' :: pending.onto done) (.blanks []) (column + 2) line cs
  | '\'' :: cs => .ok ((pending.onto done).reverse, ⟨cs, column + 1, line⟩)
  | c :: cs =>
    if isBreak c then singleQuotedFrom done (pending.addBreak c) 0 (line + 1) cs
    else if c = ' ' ∨ c = '\t' then
      singleQuotedFrom done (pending.addBlank c) (column + 1) line cs
    else singleQuotedFrom (c :: pending.onto done) (.blanks []) (column + 1) line cs

/-- The characters that a letter stands for after a backslash. -/
def escapes : List (Char × Char) :=
  [
    ('0', '\x00'), ('a', '\x07'), ('b', '\x08'), ('t', '\t'), ('\t', '\t'), ('n', '\n'),
    ('v', '\x0b'), ('f', '\x0c'), ('r', '\r'), ('e', '\x1b'), (' ', ' '), ('"', '"'),
    ('\\', '\\'), ('/', '/'), ('N', '\u0085'), ('_', '\u00a0'), ('L', '\u2028'), ('P', '\u2029')
  ]

def escaped (c : Char) : Except Refusal Char :=
  match escapes.lookup c with
  | some e => .ok e
  | none => .error .malformed

def codeOfHex (digits : List Char) : Except Refusal Nat :=
  let values := digits.filterMap Text.hexValue?
  if values.length = digits.length ∧ values.all (· < 16) then
    let n := values.foldl (fun n d => n * 16 + d) 0
    if n < 0x110000 then .ok n else .error (.codePoint n)
  else .error .malformed

/-- A scalar in double quotes, from after its first quote, with the characters that are `done`, the
last of them first. -/
def doubleQuotedFrom (done : List Char) (pending : Pending) (column line : Nat) :
    List Char → Except Refusal (List Char × Cursor)
  | [] => .error .malformed
  | '"' :: cs => .ok ((pending.onto done).reverse, ⟨cs, column + 1, line⟩)
  -- an escape may stand for a surrogate
  | '\\' :: 'x' :: a :: b :: cs => do
    let n ← codeOfHex [a, b]
    let done := (Text.ofCode n).reverse ++ pending.onto done
    doubleQuotedFrom done (.blanks []) (column + 4) line cs
  | '\\' :: 'u' :: a :: b :: c :: d :: cs => do
    let n ← codeOfHex [a, b, c, d]
    let done := (Text.ofCode n).reverse ++ pending.onto done
    doubleQuotedFrom done (.blanks []) (column + 6) line cs
  | '\\' :: 'U' :: a :: b :: c :: d :: e :: f :: g :: h :: cs => do
    let n ← codeOfHex [a, b, c, d, e, f, g, h]
    let done := (Text.ofCode n).reverse ++ pending.onto done
    doubleQuotedFrom done (.blanks []) (column + 10) line cs
  | '\\' :: e :: cs =>
    -- at the end of a line it makes the scalar go on without a blank
    if isBreak e then
      doubleQuotedFrom (pending.onto done) (.continued []) 0 (line + 1) cs
    else do
      let c ← escaped e
      doubleQuotedFrom (c :: pending.onto done) (.blanks []) (column + 2) line cs
  | c :: cs =>
    if isBreak c then doubleQuotedFrom done (pending.addBreak c) 0 (line + 1) cs
    else if c = ' ' ∨ c = '\t' then
      doubleQuotedFrom done (pending.addBlank c) (column + 1) line cs
    else doubleQuotedFrom (c :: pending.onto done) (.blanks []) (column + 1) line cs

def quoted (c : Cursor) : Except Refusal (String × Cursor) :=
  match c.rest with
  | '\'' :: cs => do
    let (chars, after) ← singleQuotedFrom [] (.blanks []) (c.column + 1) c.line cs
    return (String.ofList chars, after)
  | '"' :: cs => do
    let (chars, after) ← doubleQuotedFrom [] (.blanks []) (c.column + 1) c.line cs
    return (String.ofList chars, after)
  | _ => .error .malformed

end PhaseMachine.Yaml
