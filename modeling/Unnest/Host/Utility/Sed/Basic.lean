import Unnest.Host.Regex.Reader

/-!
# Editing scripts

An editing script is a list of steps that are done with each line in turn: each step
says which lines it is for and what is done.  Steps in braces follow the step that
selects them, which knows where they end, and branches know the number of the step that
they lead to.
-/

namespace Unnest.Host.Sed

/-- An expression of a script with its flags; none stands for the one used last. -/
structure Expression where
  regex? : Option Regex
  ignoresCase : Bool := false
  isMultiline : Bool := false
  deriving Inhabited

/-- What a line is selected by. -/
inductive Address where
  | line (n : Nat)
  /-- Every line from one on that is a number of steps away. -/
  | steps (first step : Nat)
  | last
  | pattern (e : Expression)
  deriving Inhabited

/-- The end of a range of lines. -/
inductive Stop where
  | address (a : Address)
  /-- A number of lines after the first one. -/
  | count (n : Nat)
  /-- The next line whose number is a multiple of another. -/
  | multiple (n : Nat)
  deriving Inhabited

/-- The lines that a step is for. -/
structure Selector where
  first? : Option Address := none
  stop? : Option Stop := none
  isNegated : Bool := false
  deriving Inhabited

/-- A part of what a match is replaced by. -/
inductive Part where
  | text (s : String)
  | group (n : Nat)
  /-- From here on the letters are changed, or the next one is. -/
  | letterCase (c : Char)
  deriving Repr, Inhabited

/-- An exchange of matches. -/
structure Substitution where
  expression : Expression
  replacement : List Part := []
  isGlobal : Bool := false
  number : Nat := 1
  prints : Bool := false
  path? : Option String := none
  deriving Inhabited

/-- What a step does. -/
inductive Action where
  /-- Goes on with the steps in braces, or behind them. -/
  | enter (stop : Nat)
  | none
  | append (text : String)
  | insert (text : String)
  | change (text : String)
  | branch (target : Option String)
  | branchIf (target : Option String)
  | branchUnless (target : Option String)
  | delete
  | deleteFirst
  | fileName
  | recall (appends : Bool)
  | keep (appends : Bool)
  | exchange
  | list (width? : Option Nat)
  | next
  | appendNext
  | print
  | printFirst
  | quit (code : Nat) (isSilent : Bool)
  | readFile (path : String)
  | readLine (path : String)
  | write (path : String)
  | writeFirst (path : String)
  | substitute (s : Substitution)
  | transliterate (pairs : List (Char × Char))
  | number
  | empty
  deriving Inhabited

/-- A step of a script. -/
structure Step where
  selector : Selector
  action : Action
  deriving Inhabited

/-- A script with the steps that its labels stand at. -/
structure Script where
  steps : Array Step := #[]
  labels : List (String × Nat) := []
  /-- Whether the first line of the script says that nothing is printed by itself. -/
  isSilent : Bool := false
  deriving Inhabited

end Unnest.Host.Sed
