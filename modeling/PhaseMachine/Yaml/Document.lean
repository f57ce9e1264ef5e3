/-
Documents: the value of the one document in a text. The nodes are read first, so whatever is wrong
with the text shows before what is wrong with a scalar in it.
-/
import PhaseMachine.Yaml.Node
import PhaseMachine.Yaml.Plain

namespace PhaseMachine.Yaml

namespace Node

/-! ## Merging -/

/-- The entries that a node under the merge key brings into a mapping: those of a mapping, or those of
the mappings of a list, the last of them first. -/
def mergeable : Node → Except Refusal (List (Node × Node))
  | map entries => .ok entries
  | list items => do
    let parts ← items.mapM fun
      | map entries => .ok entries
      | _ => .error .malformed
    return parts.reverse.flatten
  | _ => .error .malformed

/-- Whether a node is the key that merges what is under it into the mapping. -/
def isMergeKey : Node → Bool
  | plain s => s == "<<"
  | _ => false

mutual

/-- The node with all merges done. -/
def merged : Node → Except Refusal Node
  | list items => (mergedItems items).map list
  -- what is merged comes before the entries of the mapping itself
  | map entries => (mergedEntries entries).map fun r => map (r.1 ++ r.2)
  | n => .ok n

def mergedItems : List Node → Except Refusal (List Node)
  | [] => .ok []
  | n :: rest => do return (← merged n) :: (← mergedItems rest)

/-- The entries that are merged into a mapping, and its own. -/
def mergedEntries : List (Node × Node) → Except Refusal (List (Node × Node) × List (Node × Node))
  | [] => .ok ([], [])
  | (key, node) :: rest => do
    let node ← merged node
    let (others, own) ← mergedEntries rest
    if key.isMergeKey then return ((← node.mergeable) ++ others, own)
    else return (others, (key, node) :: own)

end

/-! ## Values -/

/-- A refusal, and how deep in the document it arises. -/
structure Fault where
  depth : Nat
  refusal : Refusal

def both {α β : Type} : Except Fault α → Except Fault β → Except Fault (α × β)
  | .ok a, .ok b => .ok (a, b)
  | .error e, .ok _ => .error e
  | .ok _, .error f => .error f
  -- of two faults the one less deep is reported, or else the first
  | .error e, .error f => .error (if f.depth < e.depth then f else e)

/-- A key, if a value can be one. -/
def asKey (depth : Nat) (v : Value) : Except Fault Value :=
  if v.isAtomic then .ok v else .error ⟨depth, .malformed⟩

def ofEntries (entries : List (Value × Value)) : Value :=
  -- the last of the entries under one key counts
  .map (entries.foldl (fun done e => Value.insert e.1 e.2 done) [])

mutual

/-- The value of a node that is so deep in the document. -/
def value (depth : Nat) : Node → Except Fault Value
  | plain s => (resolve s).mapError (Fault.mk depth)
  | quoted s => .ok (.str s)
  | list items => (itemValues (depth + 1) items).map Value.list
  | map entries => (entryValues (depth + 1) entries).map ofEntries

def itemValues (depth : Nat) : List Node → Except Fault (List Value)
  | [] => .ok []
  | n :: rest => (both (value depth n) (itemValues depth rest)).map fun r => r.1 :: r.2

def entryValues (depth : Nat) : List (Node × Node) → Except Fault (List (Value × Value))
  | [] => .ok []
  | (key, node) :: rest =>
    let entry := both ((value depth key).bind (asKey depth)) (value depth node)
    (both entry (entryValues depth rest)).map fun r => r.1 :: r.2

end

end Node

/-! ## Documents -/

/-- The place after directives, lines that start with a percent sign, `n` of them at most. -/
def skipDirectives : Nat → Cursor → Cursor
  | 0, c => c
  | n + 1, c => if c.column == 0 && c.isAt '%' then skipDirectives n c.skipLine else c

/-- The start of the document, after its mark if it has one. -/
def documentStart (cs : List Char) : Cursor :=
  let c := Cursor.skip { rest := if cs.head? = some '\uFEFF' then cs.drop 1 else cs }
  let c := skipDirectives cs.length c
  if c.column == 0 && startsMark '-' c.rest then (c.move 3).skip else c

/-- Whether nothing follows but marks of the document's end, `n` of them at most. -/
def isOver : Nat → Cursor → Bool
  | 0, c => c.rest.isEmpty
  | n + 1, c =>
    c.rest.isEmpty || c.column == 0 && startsMark '.' c.rest && isOver n (c.move 3).skip

def readNode (s : String) : Except Refusal Node := do
  let cs := unifyBreaks s.toList
  -- each character starts a few nested nodes at most
  let (node, after) ← Node.block (4 * cs.length + 4) 0 (documentStart cs)
  if isOver cs.length after then node.merged else throw .malformed

/-- The value of the document in a text, null if the text is empty. -/
def read (s : String) : Except Refusal Value := do
  let node ← readNode s
  (node.value 0).mapError Node.Fault.refusal

end PhaseMachine.Yaml
