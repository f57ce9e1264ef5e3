/-
Nodes: the structure of a document before its scalars have values. In brackets, lists and mappings are
held together by marks; outside, by columns: a nested node starts to the right of the node around it,
and only a list may start in the column of the key that it belongs to.
-/
import PhaseMachine.Yaml.Scalar

namespace PhaseMachine.Yaml

/-- A node. A plain scalar may turn out to be no text; an empty one stands for a node left out. -/
inductive Node where
  | plain (s : String)
  | quoted (s : String)
  | list (items : List Node)
  | map (entries : List (Node × Node))
deriving Inhabited

namespace Node

def empty : Node :=
  plain ""

def scalar (flow : Bool) (least : Nat) (c : Cursor) : Except Refusal (Node × Cursor) :=
  if c.isAt '\'' || c.isAt '"' then (Yaml.quoted c).map fun r => (quoted r.1, r.2)
  else (Yaml.plain flow least c).map fun r => (plain r.1, r.2)

/-! ## Nodes in brackets -/

/-- Whether a key or a value in brackets is left out. -/
def endsEntry (c : Cursor) : Bool :=
  c.isAt ',' || c.isAt ']' || c.isAt '\x7d'

mutual

/-- A node in brackets, nested at most `n` deep. -/
def flow (n : Nat) (c : Cursor) : Except Refusal (Node × Cursor) :=
  match n with
  | 0 => .error .malformed
  | n + 1 =>
    if c.isAt '[' then flowItems n [] (c.move 1)
    else if c.isAt '\x7b' then flowEntries n [] (c.move 1)
    else scalar true 0 c

/-- The key of an entry, after a question mark if there is one. -/
def flowKey (n : Nat) (c : Cursor) : Except Refusal (Node × Cursor) :=
  match n with
  | 0 => .error .malformed
  | n + 1 =>
    if c.isAt '?' then
      let next := (c.move 1).skip
      if endsEntry next || next.isAt ':' then .ok (empty, next) else flow n next
    else flow n c

/-- The value of an entry, if a colon comes next, and else none. -/
def flowValue? (n : Nat) (c : Cursor) : Except Refusal (Option Node × Cursor) :=
  match n with
  | 0 => .error .malformed
  | n + 1 =>
    let next := c.skip
    if next.isAt ':' then
      let next := (next.move 1).skip
      if endsEntry next then .ok (some empty, next)
      else (flow n next).map fun r => (some r.1, r.2)
    else .ok (none, next)

/-- The rest of a list after some items, the last of them first. -/
def flowItems (n : Nat) (items : List Node) (c : Cursor) : Except Refusal (Node × Cursor) :=
  match n with
  | 0 => .error .malformed
  | n + 1 =>
    let c := c.skip
    if c.isAt ']' then .ok (list items.reverse, c.move 1)
    else if c.isAt ',' then flowItems n items (c.move 1)
    else do
      let (key, after) ← flowKey n c
      let (value?, after) ← flowValue? n after
      -- a key, with its value or after a question mark, makes an item of its own
      let item := match value? with
        | some value => map [(key, value)]
        | none => if c.isAt '?' then map [(key, empty)] else key
      flowItems n (item :: items) after

/-- The rest of a mapping after some entries, the last of them first. -/
def flowEntries (n : Nat) (entries : List (Node × Node)) (c : Cursor) :
    Except Refusal (Node × Cursor) :=
  match n with
  | 0 => .error .malformed
  | n + 1 =>
    let c := c.skip
    if c.isAt '\x7d' then .ok (map entries.reverse, c.move 1)
    else if c.isAt ',' then flowEntries n entries (c.move 1)
    else do
      let (key, after) ← flowKey n c
      let (value?, after) ← flowValue? n after
      flowEntries n ((key, value?.getD empty) :: entries) after

end

/-! ## Nodes in columns -/

/-- The place after the colon of a key that started at `start` and ended here. -/
def afterKey? (start c : Cursor) : Option Cursor :=
  let mark := c.skipBlanks
  -- key and colon stand on one line
  if mark.isBefore ':' && mark.line == start.line then some (mark.move 1) else none

/-- A scalar or a node in brackets inside a node that starts in the column before `least`. -/
def inline (n least : Nat) (c : Cursor) : Except Refusal (Node × Cursor) :=
  if c.isAt '[' || c.isAt '\x7b' then flow n c else scalar false least c

mutual

/-- A node that starts in the column `least` or to the right of it, nested at most `n` deep. The
place after it is that of the next node. -/
def block (n least : Nat) (c : Cursor) : Except Refusal (Node × Cursor) :=
  match n with
  | 0 => .error .malformed
  | n + 1 =>
    if c.atEnd || c.column < least then .ok (empty, c)
    else if c.isBefore '-' then blockItems n c.column [] c
    else if c.isBefore '?' then blockEntries n c.column [] c
    else do
      let (node, after) ← inline n least c
      if (afterKey? c after).isSome then blockEntries n c.column [] c
      else return (node, after.skip)

/-- The rest of a list whose dashes stand in a column, after some items, the last of them first. -/
def blockItems (n column : Nat) (items : List Node) (c : Cursor) : Except Refusal (Node × Cursor) :=
  match n with
  | 0 => .error .malformed
  | n + 1 =>
    if !c.atEnd && c.column == column && c.isBefore '-' then do
      let (item, after) ← block n (column + 1) (c.move 1).skip
      blockItems n column (item :: items) after
    else .ok (list items.reverse, c)

/-- A node of a mapping whose keys stand in a column. -/
def blockPart (n column : Nat) (c : Cursor) : Except Refusal (Node × Cursor) :=
  match n with
  | 0 => .error .malformed
  | n + 1 =>
    -- a list may start in that column too
    if !c.atEnd && c.column == column && c.isBefore '-' then blockItems n column [] c
    else block n (column + 1) c

/-- The value of a key in a column, from after the colon. -/
def blockValue (n column : Nat) (c : Cursor) : Except Refusal (Node × Cursor) :=
  match n with
  | 0 => .error .malformed
  | n + 1 =>
    let next := c.skip
    -- on the line of its key it is no list and no mapping but one in brackets
    if !next.atEnd && next.line == c.line then
      (inline n (column + 1) next).map fun r => (r.1, r.2.skip)
    else blockPart n column next

/-- The rest of a mapping whose keys stand in a column, after some entries, the last of them first. -/
def blockEntries (n column : Nat) (entries : List (Node × Node)) (c : Cursor) :
    Except Refusal (Node × Cursor) :=
  match n with
  | 0 => .error .malformed
  | n + 1 =>
    if c.atEnd || c.column != column || c.isBefore '-' then .ok (map entries.reverse, c)
    -- after a question mark a key is a node of its own, and a colon in the column comes before its value
    else if c.isBefore '?' then do
      let (key, after) ← blockPart n column (c.move 1).skip
      let (value, after) ←
        if !after.atEnd && after.column == column && after.isBefore ':' then
          blockPart n column (after.move 1).skip
        else pure (empty, after)
      blockEntries n column ((key, value) :: entries) after
    else do
      let (key, after) ← inline n (column + 1) c
      match afterKey? c after with
      | none => throw .malformed
      | some c =>
        let (value, after) ← blockValue n column c
        blockEntries n column ((key, value) :: entries) after

end

end Node

end PhaseMachine.Yaml
