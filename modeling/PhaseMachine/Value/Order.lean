/-
The order of keys. Numbers and truth values are ordered among each other, and so are texts; other
keys have no order. Not-a-number comes neither before nor after any number, so where it ends up
hangs on the way of sorting.
-/
import PhaseMachine.Value.Basic

namespace PhaseMachine.Value

/-! ## Comparing keys -/

/-- Whether an integer comes before a floating-point number. -/
def intBeforeFloat (i : Int) (x : Float) : Bool :=
  if x.isNaN then false
  else if x.isInf then 0.0 < x
  else
    let whole := Numeral.truncated x
    -- exact: the integer part first, and a fraction decides only between equal ones
    i < whole || i == whole && floatOfInt whole < x

def floatBeforeInt (x : Float) (i : Int) : Bool :=
  if x.isNaN then false
  else if x.isInf then x < 0.0
  else
    let whole := Numeral.truncated x
    whole < i || whole == i && x < floatOfInt whole

def numberBefore : Value → Value → Bool
  | float x, float y => x < y
  | float x, w => w.integer?.any (floatBeforeInt x)
  | v, float y => v.integer?.any fun i => intBeforeFloat i y
  | v, w => match v.integer?, w.integer? with
    | some i, some j => i < j
    | _, _ => false

/-- Texts are compared by their code points. -/
def textBefore : Value → Value → Bool
  | str s, str t => (Text.codes s.toList).lex (Text.codes t.toList) fun a b => a < b
  | _, _ => false

def isText : Value → Bool
  | str _ => true
  | _ => false

def isNumber : Value → Bool
  | float _ => true
  | v => v.integer?.isSome

/-! ## Sorting keys -/

section Sorting

variable {α : Type} (before : α → α → Bool)

/-- How many elements of a sorted list stay in front of a new one: the first part, of at most `n`
elements, is halved again and again. -/
def placeIn (x : α) : Nat → List α → Nat
  | 0, _ => 0
  | n + 1, xs =>
    let half := xs.length / 2
    match xs[half]? with
    | none => 0
    | some y =>
      if before x y then placeIn x n (xs.take half)
      else half + 1 + placeIn x n (xs.drop (half + 1))

/-- A sorted list with one more element, after those that it does not come before. -/
def insertSorted (xs : List α) (x : α) : List α :=
  let place := placeIn before x xs.length xs
  xs.take place ++ x :: xs.drop place

/-- The elements after `x` that go on in its direction, down or up, and the others. -/
def runAfter (down : Bool) (x : α) : List α → List α × List α
  | [] => ([], [])
  | y :: ys =>
    if before y x == down then
      let (run, rest) := runAfter down y ys
      (y :: run, rest)
    else ([], y :: ys)

/-- A list in ascending order: a first run, turned round if it descends, and then one element after
the other put in its place. Elements of which neither comes before the other keep their order. -/
def sortBy : List α → List α
  | x :: y :: ys =>
    let down := before y x
    let (run, rest) := runAfter before down x (y :: ys)
    rest.foldl (insertSorted before) (if down then (x :: run).reverse else x :: run)
  | xs => xs

end Sorting

/-- The keys in ascending order, if they have one. -/
def sorted? (keys : List Value) : Option (List Value) :=
  if keys.length ≤ 1 then some keys
  else if keys.all isText then some (sortBy textBefore keys)
  else if keys.all isNumber then some (sortBy numberBefore keys)
  else none

end PhaseMachine.Value
