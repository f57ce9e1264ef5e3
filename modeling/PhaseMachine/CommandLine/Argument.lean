/-
Arguments of the command line. An argument that starts with a dash is an option. A long option may be
shortened as far as it stays the only one that starts alike, and a value may follow it after an
equals sign. After an argument of two dashes there are no options.
-/
import PhaseMachine.Text.Character

namespace PhaseMachine.CommandLine

/-- Asked for help, or called in a wrong way: why nothing is run. -/
inductive Usage where
  | help
  | wrong
deriving DecidableEq, Repr

def Usage.exitCode : Usage → Nat
  | help => 0
  | wrong => 2

inductive Switch where
  | help | steps | listing | strict | logLevel
deriving DecidableEq, Repr

def spellings : List (List Char × Switch) :=
  [
    ("-h".toList, .help), ("--help".toList, .help), ("--steps".toList, .steps),
    ("--listing".toList, .listing), ("--strict".toList, .strict), ("--log-level".toList, .logLevel)
  ]

inductive Argument where
  | plain (text : String)
  /-- Two dashes alone. -/
  | separator
  /-- An option, perhaps with a value after its name. -/
  | switch (s : Switch) (value? : Option String)
  /-- What looks like an option and is none. -/
  | unknown
deriving DecidableEq, Repr

/-! ## Options -/

def spelled? (name : List Char) : Option Switch :=
  spellings.lookup name

def cutAtEquals (cs : List Char) : List Char × Option (List Char) :=
  match cs.dropWhile (· != '=') with
  | [] => (cs, none)
  | _ :: value => (cs.takeWhile (· != '='), some value)

/-- The value that the text after an option makes. -/
def valueAfter (name value : List Char) : Option (List Char) :=
  -- after a short option, the letters of short options are options themselves
  if name.length = 2 ∧ value ≠ [] ∧ value.all (fun c => (spelled? ['-', c]).isSome) then none
  else some value

/-- The option spelled out, with its value. -/
def inFull? (cs : List Char) : Option (Switch × Option (List Char)) :=
  match spelled? cs, cutAtEquals cs with
  | some s, _ => some (s, none)
  | none, (name, some value) => (spelled? name).map fun s => (s, valueAfter name value)
  | none, (_, none) => none

/-- The options that a text may stand for in part: the long ones that start like it, or the short one
of its letter. -/
def inPart (cs : List Char) : List (Switch × Option (List Char)) :=
  match cs with
  | '-' :: '-' :: _ =>
    let (name, value?) := cutAtEquals cs
    (spellings.filter fun s => name.isPrefixOf s.1).map fun s => (s.2, value?)
  | '-' :: c :: letters => (spelled? ['-', c]).toList.map fun s => (s, valueAfter ['-', c] letters)
  | _ => []

/-! ## Arguments -/

/-- Whether a text is a negative number, which is no option. -/
def isNegativeNumber : List Char → Bool
  | '-' :: cs =>
    -- a line end after the number does not matter
    let body := if cs.getLast? = some '\n' then cs.dropLast else cs
    match body.dropWhile Text.isDecimal with
    | [] => !body.isEmpty
    | '.' :: ds => !ds.isEmpty && ds.all Text.isDecimal
    | _ => false
  | _ => false

/-- The argument that a text other than two dashes is. -/
def Argument.read (text : String) : Except Usage Argument :=
  let cs := text.toList
  if cs.head? != some '-' || cs.length == 1 then .ok (.plain text)
  else
    match (inFull? cs).elim (inPart cs) fun r => [r] with
    | [(s, value?)] => .ok (.switch s (value?.map String.ofList))
    -- a text with a blank is no option unless it starts like one
    | [] => .ok (if isNegativeNumber cs || cs.contains ' ' then .plain text else .unknown)
    | _ => .error .wrong

def readArguments : List String → Except Usage (List Argument)
  | [] => .ok []
  | text :: rest =>
    if text = "--" then .ok (.separator :: rest.map .plain)
    else do return (← Argument.read text) :: (← readArguments rest)

end PhaseMachine.CommandLine
