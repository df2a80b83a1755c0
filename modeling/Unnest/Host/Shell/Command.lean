/-!
# Commands of a shell

A script is made of commands, and commands of words.  A word keeps its parts as they
were written: what stands between quotes is told apart from what does not, because only
the latter is split into fields and matched with the names of files.  Scripts inside of
words stay texts, which are read again when they are run.
-/

namespace Unnest.Host.Shell

mutual

/-- A part of a word. -/
inductive Piece where
  | text (s : String)
  /-- A text that means nothing but itself. -/
  | quoted (s : String)
  /-- The value of a parameter, or what an operation makes of it. -/
  | parameter (name : String) (subscript : Option (List Piece)) (isIndirect : Bool)
      (operation : Operation) (isQuoted : Bool)
  /-- What a script prints. -/
  | output (script : String) (isQuoted : Bool)
  /-- The value of an expression. -/
  | arithmetic (expression : List Piece) (isQuoted : Bool)
  /-- The path of a pipe that a script writes or reads. -/
  | pipe (script : String) (isInput : Bool)
  /-- The elements of an array. -/
  | elements (words : List (List Piece))

/-- What is done with the value of a parameter. -/
inductive Operation where
  | value
  | length
  /-- A word in place of no value; where `empties` is set, also in place of an empty one. -/
  | fallback (empties : Bool) (word : List Piece)
  /-- A word in place of no value, which becomes the value. -/
  | assign (empties : Bool) (word : List Piece)
  /-- A complaint if there is no value. -/
  | require (empties : Bool) (word : List Piece)
  /-- A word in place of a value. -/
  | alternative (empties : Bool) (word : List Piece)
  /-- The value without what a pattern matches at its start. -/
  | removeStart (isLongest : Bool) (pattern : List Piece)
  /-- The value without what a pattern matches at its end. -/
  | removeEnd (isLongest : Bool) (pattern : List Piece)
  /-- The value with a word in place of what a pattern matches. -/
  | replace (where? : Option Char) (pattern word : List Piece)
  | slice (offset : List Piece) (length : Option (List Piece))
  | changeCase (isUpper isAll : Bool) (pattern : List Piece)
  | transform (letter : Char)
  /-- The names that start with the name of the parameter. -/
  | names (joins : Bool)
  /-- No operation at all. -/
  | bad

end

instance : Inhabited Piece := ⟨.text ""⟩

/-- A word. -/
abbrev Word := List Piece

/-- The text of a word without quotes or expansions. -/
def Word.literal? : Word → Option String
  | [.text s] => some s
  | _ => none

/-- How a descriptor is to be changed. -/
inductive RedirectionKind where
  | input
  | output
  /-- Output in place of what is there, even if files are protected. -/
  | clobber
  | append
  | readWrite
  | duplicateInput
  | duplicateOutput
  /-- A text that follows in the script, by its number. -/
  | document (number : Nat)
  | line
  /-- Output and complaints alike. -/
  | bothOutput
  | bothAppend
  deriving DecidableEq, Repr

/-- A change of a descriptor. -/
structure Redirection where
  descriptor? : Option Nat
  /-- The variable that the number of a new descriptor goes to. -/
  name? : Option String := none
  kind : RedirectionKind
  target : Word

/-- A value for a variable. -/
structure Assignment where
  name : String
  subscript : Option Word := none
  isAppended : Bool := false
  value : Word

/-- A condition between double brackets. -/
inductive TestExpression where
  | word (w : Word)
  | unary (operator : String) (w : Word)
  | binary (left : Word) (operator : String) (right : Word)
  | not (e : TestExpression)
  | and (e f : TestExpression)
  | or (e f : TestExpression)
  deriving Inhabited

/-- What follows a branch of a choice that was taken. -/
inductive Ending where
  | leave
  /-- The next branch is taken as well. -/
  | fallThrough
  /-- The next patterns are tried as well. -/
  | goOn
  deriving DecidableEq, Repr

/-- A command. -/
inductive Command where
  | simple (line : Nat) (assignments : List Assignment) (words : List Word)
      (redirections : List Redirection)
  | pipeline (isNegated : Bool) (commands : List Command)
  /-- The second only if the first went well. -/
  | both (a b : Command)
  /-- The second only if the first did not go well. -/
  | either (a b : Command)
  | sequence (commands : List Command)
  | background (c : Command)
  | subshell (c : Command)
  | group (c : Command)
  | conditional (branches : List (Command × Command)) (otherwise : Option Command)
  | loop (isUntil : Bool) (condition body : Command)
  | forEach (line : Nat) (name : String) (words : Option (List Word)) (body : Command)
  | forCount (line : Nat) (first condition step : Word) (body : Command)
  | choice (line : Nat) (subject : Word) (branches : List (List Word × Command × Ending))
  | function (name : String) (body : Command)
  | test (line : Nat) (e : TestExpression)
  | arithmetic (line : Nat) (expression : Word)
  | redirected (c : Command) (redirections : List Redirection)

instance : Inhabited Command := ⟨.sequence []⟩

/-- The languages that shells read. -/
inductive Dialect where
  /-- The plain one, which all shells have in common. -/
  | plain
  /-- The rich one, with arrays, conditions between double brackets, and more. -/
  | rich
  deriving DecidableEq, Repr, Inhabited

end Unnest.Host.Shell
