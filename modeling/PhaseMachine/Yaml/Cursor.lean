/-
Places in a text of several lines, and what may be passed over there: blanks, comments and line
breaks. A line feed is the common break; the line separator and the paragraph separator are breaks
that keep their own character.
-/

namespace PhaseMachine.Yaml

/-! ## Line breaks -/

/-- Every carriage return and every next line, with a line feed after it or not, as one line feed. -/
def unifyBreaks : List Char → List Char
  | '\r' :: '\n' :: cs => '\n' :: unifyBreaks cs
  | '\r' :: cs => '\n' :: unifyBreaks cs
  | '\u0085' :: cs => '\n' :: unifyBreaks cs
  | c :: cs => c :: unifyBreaks cs
  | [] => []

def isBreak (c : Char) : Bool :=
  c == '\n' || c == '\u2028' || c == '\u2029'

/-- The text in place of line breaks. A line feed alone is a blank, and before other breaks nothing;
all other breaks stay. -/
def folded : List Char → List Char
  | ['\n'] => [' ']
  | '\n' :: breaks => breaks
  | breaks => breaks

/-- Whether a text is over or goes on with white space. -/
def blankNext : List Char → Bool
  | [] => true
  | c :: _ => c == ' ' || c == '\t' || isBreak c

/-- Whether a text starts with a mark, three times a character. -/
def startsMark (mark : Char) : List Char → Bool
  | a :: b :: c :: cs => a == mark && b == mark && c == mark && blankNext cs
  | _ => false

/-- Whether a line starts with the mark of a document's start or end. -/
def startsDocumentMark (line : List Char) : Bool :=
  startsMark '-' line || startsMark '.' line

/-! ## Places -/

/-- A place in a text: what is left of it, and the column and line where that starts. -/
structure Cursor where
  rest : List Char
  column : Nat := 0
  line : Nat := 0
deriving DecidableEq, Repr, Inhabited

namespace Cursor

/-- The place a number of characters further on the same line. -/
def move (c : Cursor) (n : Nat) : Cursor :=
  { c with rest := c.rest.drop n, column := c.column + n }

/-- Whether the document ends here, with the text or with a mark. -/
def atEnd (c : Cursor) : Bool :=
  c.rest.isEmpty || c.column == 0 && startsDocumentMark c.rest

/-- Whether a character comes next. -/
def isAt (c : Cursor) (ch : Char) : Bool :=
  c.rest.head? == some ch

/-- Whether a character comes next, and white space after it. -/
def isBefore (c : Cursor) (ch : Char) : Bool :=
  c.isAt ch && blankNext (c.rest.drop 1)

/-- The place after blanks, line breaks and comments. -/
def skipFrom (inComment : Bool) (column line : Nat) : List Char → Cursor
  | [] => ⟨[], column, line⟩
  | c :: cs =>
    if isBreak c then skipFrom false 0 (line + 1) cs
    else if inComment || c = ' ' then skipFrom inComment (column + 1) line cs
    else if c = '#' then skipFrom true (column + 1) line cs
    else ⟨c :: cs, column, line⟩

def skip (c : Cursor) : Cursor :=
  skipFrom false c.column c.line c.rest

/-- The place after the rest of the line and what may be passed over there. -/
def skipLine (c : Cursor) : Cursor :=
  skipFrom true c.column c.line c.rest

/-- The place after blanks on the same line. -/
def skipBlanks (c : Cursor) : Cursor :=
  c.move (c.rest.takeWhile (· == ' ')).length

end Cursor

end PhaseMachine.Yaml
