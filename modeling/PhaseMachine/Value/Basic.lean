/-
Values of configuration data: nested lists and mappings over text, numbers, truth values and null.
A mapping is the list of its entries in order, with distinct keys.
-/
import PhaseMachine.Number.Quantity
import PhaseMachine.Numeral.Floating

namespace PhaseMachine

/-- A value of configuration data. -/
inductive Value where
  | null
  | bool (b : Bool)
  | int (i : Int)
  | float (x : Float)
  | str (s : String)
  | list (items : List Value)
  | map (entries : List (Value × Value))
deriving Inhabited

namespace Value

/-- Whether the value counts as true: null, false, zero and all that is empty do not. -/
def truthy : Value → Bool
  | null => false
  | bool b => b
  | int i => i != 0
  | float x => x != 0.0
  | str s => s != ""
  | list items => !items.isEmpty
  | map entries => !entries.isEmpty

def kind : Value → String
  | null => "NoneType"
  | bool _ => "bool"
  | int _ => "int"
  | float _ => "float"
  | str _ => "str"
  | list _ => "list"
  | map _ => "dict"

/-- Whether the value can serve as a name or a key. -/
def isAtomic : Value → Bool
  | list _ => false
  | map _ => false
  | _ => true

/-- The value as an integer; a truth value counts as 0 or 1. -/
def integer? : Value → Option Int
  | bool b => some b.toNat
  | int i => some i
  | _ => none

/-- The value as a number of cells or lines. What is no integer counts as 0, which is no size. -/
def size (v : Value) : Int :=
  v.integer?.getD 0

/-- Whether a floating-point number equals an integer. -/
def floatIsInt (x : Float) (i : Int) : Bool :=
  !x.isNaN && !x.isInf && Numeral.truncated x == i && floatOfInt i == x

/-- Whether two values are one key of a mapping. Numbers and truth values are compared as
numbers. Not-a-number differs from every number but is one key with itself. -/
def sameKey : Value → Value → Bool
  | null, null => true
  | str s, str t => s == t
  | float x, float y => x == y || x.isNaN && y.isNaN
  | float x, v => v.integer?.any (floatIsInt x)
  | v, float x => v.integer?.any (floatIsInt x)
  | v, w => match v.integer?, w.integer? with
    | some i, some j => i == j
    | _, _ => false

/-! ## Entries of a mapping -/

def lookup (key : Value) : List (Value × Value) → Option Value
  | [] => none
  | (k, v) :: rest => if k.sameKey key then some v else lookup key rest

/-- The entries with the value under a key replaced, or with a new entry at the end. -/
def insert (key value : Value) : List (Value × Value) → List (Value × Value)
  | [] => [(key, value)]
  | (k, v) :: rest => if k.sameKey key then (k, value) :: rest else (k, v) :: insert key value rest

def field? (entries : List (Value × Value)) (name : String) : Option Value :=
  lookup (.str name) entries

def fieldD (entries : List (Value × Value)) (name : String) (default : Value) : Value :=
  (field? entries name).getD default

end Value

end PhaseMachine
