import Unnest.Host.Machine
import Unnest.Host.Numeral

/-!
# What a utility does

A utility is a small program that every host has.  It works on a `Task`: the machine
that it runs on, the process that it is, and the name that it was called by, which it
puts in front of its complaints.  Work can end at any point with a status; what was done
before it stays done.
-/

namespace Unnest.Host

/-- A program at work. -/
structure Task where
  machine : Machine
  process : Process
  name : String
  deriving Inhabited

/-- Work on a task, which can end the task with a status. -/
abbrev Work := ExceptT ExitStatus (StateM Task)

/-- A program, given its arguments; its value is the code that it ends with. -/
abbrev Utility := List String → Work Nat

namespace Work

/-- Ends the task with a code. -/
def quit {α : Type} (code : Nat) : Work α := throw (.code code)

def machine : Work Machine := return (← get).machine

def files : Work Files := return (← get).machine.files

def process : Work Process := return (← get).process

/-- The directory that paths start in. -/
def here : Work Nat := return (← get).process.directory

def setMachine (m : Machine) : Work Unit := modify fun t => { t with machine := m }

def setFiles (fs : Files) : Work Unit :=
  modify fun t => { t with machine := { t.machine with files := fs } }

/-! ## Writing -/

/-- Writes to a descriptor, if that is possible. -/
def tryWrite (descriptor : Nat) (text : String) : Work (Option Fault) := do
  let t ← get
  match t.process.opening? descriptor with
  | none => return if text = "" then none else some .badDescriptor
  | some o =>
    let m := t.machine
    set { t with machine := {} }
    match m.write o text with
    | .ok m => setMachine m; return none
    | .error f => setMachine m; return some f

/-- Shows a line to the user. -/
def tell (line : String) : Work Unit := do
  let _ ← tryWrite 2 (line ++ "\n")

/-- Shows what is wrong behind the name of the program. -/
def complain (text : String) : Work Unit := do
  let name := (← get).name
  tell s!"{name}: {text}"

/-- Shows what is wrong and ends the task. -/
def fail {α : Type} (code : Nat) (text : String) : Work α := do
  complain text
  quit code

/-- Shows what is wrong, with a hint at where help is, and ends the task. -/
def misuse {α : Type} (code : Nat) (text : String) : Work α := do
  complain text
  let name := (← get).name
  tell s!"Try '{name} --help' for more information."
  quit code

/-- Writes to a descriptor.  A pipe that nobody reads ends the program. -/
def write (descriptor : Nat) (text : String) : Work Unit := do
  match ← tryWrite descriptor text with
  | none => return
  | some .brokenPipe =>
    if (← process).ignored.contains ⟨13⟩ then fail 1 s!"write error: {Fault.brokenPipe.text}"
    else throw (.signal ⟨13⟩)
  | some f => fail 1 s!"write error: {f.text}"

/-- Prints a text. -/
def print (text : String) : Work Unit := write 1 text

/-- Prints a line. -/
def printLine (text : String) : Work Unit := write 1 (text ++ "\n")

/-! ## Reading -/

/-- All that is left to read of a descriptor. -/
def drain (descriptor : Nat) : Work (Except Fault String) := do
  let t ← get
  match t.process.opening? descriptor with
  | none => return .error .badDescriptor
  | some o =>
    match t.machine.rest o with
    | .error f => return .error f
    | .ok text =>
      setMachine (t.machine.consume o text.length)
      return .ok text

/-- Reads a number of octets of a descriptor. -/
def readSome (descriptor count : Nat) : Work (Except Fault String) := do
  let t ← get
  match t.process.opening? descriptor with
  | none => return .error .badDescriptor
  | some o =>
    match t.machine.rest o with
    | .error f => return .error f
    | .ok text =>
      let text := Octets.take count text
      setMachine (t.machine.consume o text.length)
      return .ok text

/-- What a file holds. -/
def readPath (path : String) : Work (Except Fault String) := do
  let t ← get
  match t.machine.openPath t.process path .read with
  | .error f => return .error f
  | .ok (o, m) =>
    match m.rest o with
    | .error f => return .error f
    | .ok text =>
      setMachine (m.consume o text.length)
      return .ok text

/-- What a file holds, where a dash means what the program reads. -/
def readOperand (path : String) : Work (Except Fault String) :=
  if path = "-" then drain 0 else readPath path

/-- Writes a file, in place of what was there. -/
def writePath (path text : String) (access : Access) : Work (Except Fault Unit) := do
  let t ← get
  match t.machine.openPath t.process path access with
  | .error f => return .error f
  | .ok (o, m) =>
    match m.write o text with
    | .error f => setMachine m; return .error f
    | .ok m => setMachine m; return .ok ()

/-! ## Files -/

/-- Asks the file system. -/
def ask {α : Type} (question : Files → (directory : Nat) → α) : Work α := do
  return question (← files) (← here)

/-- Changes the file system, if that is possible. -/
def change (action : Files → (directory : Nat) → Except Fault Files) : Work (Option Fault) := do
  match action (← files) (← here) with
  | .ok fs => setFiles fs; return none
  | .error f => return some f

/-- The permissions of something new. -/
def newMode (mode : Nat) : Work Nat := return mode - (mode &&& (← process).mask)

/-- Does something with each operand; whether all went well. -/
def forEach {α : Type} (operands : List α) (act : α → Work Bool) : Work Bool :=
  operands.foldlM (fun well operand => return (← act operand) && well) true

/-- The code of a program that goes on where something fails. -/
def code (well : Bool) : Nat := if well then 0 else 1

end Work

/-! ## Names in complaints -/

namespace Quoting

/-- The octets that need no quotes in a shell. -/
def isPlain (c : Char) : Bool :=
  c.isAlphanum || "%+,-./:=@_^]\x7b\x7d~#".toList.contains c

/-- Whether a name needs quotes; a few characters do at its start only. -/
def isNeeded (name : String) : Bool :=
  name = "" || !name.all isPlain || ["\x7b", "\x7d"].contains name ||
    name.toList.head?.any fun c => c = '~' || c = '#'

/-- An octet that cannot be shown, as an escape. -/
def escaped (c : Char) : String :=
  match c with
  | '\n' => "\\n"
  | '\t' => "\\t"
  | '\r' => "\\r"
  | '\x07' => "\\a"
  | '\x08' => "\\b"
  | '\x0b' => "\\v"
  | '\x0c' => "\\f"
  | c => "\\" ++ Octets.padLeft '0' 3 (Numeral.digits 8 c.toNat)

/-- The parts of a name between quotes that show it; those that cannot be shown stand
in quotes of their own. -/
def quotedParts : List Char → Bool → String
  | [], isShown => if isShown then "'" else ""
  | c :: cs, isShown =>
    if Octets.isPrintable c then
      (if isShown then "" else "''") ++ (if c = '\x27' then "'\\''" else c.toString) ++ quotedParts cs true
    else (if isShown then "'$'" else "") ++ escaped c ++ quotedParts cs false

/-- A name in quotes, so that a shell reads it back. -/
def always (name : String) : String :=
  if Octets.has name '\x27' && name.all fun c => Octets.isPrintable c && c != '"' && c != '$' &&
      c != '\x60' && c != '\\' && c != '!' then "\"" ++ name ++ "\""
  else "'" ++ quotedParts name.toList true

/-- A name, in quotes if a shell needs them. -/
def ifNeeded (name : String) : String := if isNeeded name then always name else name

/-- A name in quotes with escapes in it. -/
def literal (name : String) : String :=
  let escape (c : Char) : String :=
    if c = '\x27' || c = '\\' then "\\" ++ c.toString
    else if Octets.isPrintable c then c.toString
    else escaped c
  "'" ++ String.join (name.toList.map escape) ++ "'"

end Quoting

/-! ## Options -/

/-- What an option takes. -/
inductive Takes where
  | nothing
  | value
  /-- A value that is written together with the option, if there is one. -/
  | attached
  deriving DecidableEq, Repr

/-- The options that a program knows. -/
structure OptionTable where
  /-- The letters; a colon behind a letter asks for a value, two for an attached one. -/
  letters : String := ""
  /-- The words, with the option that each stands for. -/
  words : List (String × Takes × String) := []
  /-- The code that the program ends with where options are wrong. -/
  failure : Nat := 1
  /-- Whether all that follows the first operand is an operand. -/
  isOrdered : Bool := false

/-- The options and operands that a program was given. -/
structure Given where
  options : List (String × String) := []
  operands : List String := []

namespace Given

def has (g : Given) (option : String) : Bool := g.options.any (·.1 == option)

/-- The value of an option, of several the last. -/
def value? (g : Given) (option : String) : Option String :=
  (g.options.reverse.find? (·.1 == option)).map (·.2)

/-- All values of an option. -/
def values (g : Given) (option : String) : List String :=
  (g.options.filter (·.1 == option)).map (·.2)

/-- Which of some options was given last. -/
def last? (g : Given) (options : List String) : Option String :=
  (g.options.reverse.find? fun o => options.contains o.1).map (·.1)

end Given

namespace OptionTable

/-- What a letter takes, if it is an option. -/
def letter? (letter : Char) : List Char → Option Takes
  | c :: ':' :: ':' :: cs => if c = letter then some .attached else letter? letter cs
  | c :: ':' :: cs => if c = letter then some .value else letter? letter cs
  | c :: cs => if c = letter then some .nothing else letter? letter cs
  | [] => none

/-- Why options could not be read. -/
inductive Mistake where
  | unknownLetter (c : Char)
  | missingValue (c : Char)
  | unknownWord (word : String)
  | missingWordValue (word : String)
  | extraWordValue (word : String)
  | ambiguous (word : String) (candidates : List String)

/-- A mistake in words. -/
def Mistake.text : Mistake → String
  | .unknownLetter c => s!"invalid option -- '{c}'"
  | .missingValue c => s!"option requires an argument -- '{c}'"
  | .unknownWord word => s!"unrecognized option '--{word}'"
  | .missingWordValue word => s!"option '--{word}' requires an argument"
  | .extraWordValue word => s!"option '--{word}' doesn't allow an argument"
  | .ambiguous word candidates =>
    s!"option '--{word}' is ambiguous; possibilities:" ++
      String.join (candidates.map fun c => s!" '--{c}'")

/-- Reads the letters of one argument: the options, and whether the last of them takes
the next argument as its value. -/
def readLetters (t : OptionTable) :
    List Char → Except Mistake (List (String × String) × Option Char)
  | [] => .ok ([], none)
  | c :: cs =>
    match letter? c t.letters.toList with
    | none => .error (.unknownLetter c)
    | some .nothing => do
      let (options, pending) ← readLetters t cs
      return ((c.toString, "") :: options, pending)
    | some .value =>
      if cs.isEmpty then .ok ([], some c) else .ok ([(c.toString, String.ofList cs)], none)
    | some .attached => .ok ([(c.toString, String.ofList cs)], none)

/-- The options that a word can mean: the one of this name, or those that start so. -/
def candidates (t : OptionTable) (word : String) : List (String × Takes × String) :=
  match t.words.find? (·.1 == word) with
  | some o => [o]
  | none =>
    let found := t.words.filter fun o => word.toList.isPrefixOf o.1.toList
    match found with
    | o :: others => if others.all (·.2.2 == o.2.2) then [o] else found
    | [] => []

/-- Reads arguments. -/
def read (t : OptionTable) : List String → Except Mistake Given
  | [] => .ok {}
  | arg :: args =>
    match arg.toList with
    | ['-', '-'] => .ok { operands := args }
    | '-' :: '-' :: cs =>
      let (word, value?) := Octets.cut '=' (String.ofList cs)
      match t.candidates word with
      | [] => .error (.unknownWord word)
      | _ :: _ :: _ => .error (.ambiguous word ((t.candidates word).map (·.1)))
      | [(name, takes, option)] =>
        match takes, value?, args with
        | .nothing, some _, _ => .error (.extraWordValue name)
        | .nothing, none, args => do
          let g ← read t args
          return { g with options := (option, "") :: g.options }
        | .value, none, [] => .error (.missingWordValue name)
        | .value, none, value :: args => do
          let g ← read t args
          return { g with options := (option, value) :: g.options }
        | _, _, args => do
          let g ← read t args
          return { g with options := (option, value?.getD "") :: g.options }
    | '-' :: c :: cs => do
      let (options, pending) ← readLetters t (c :: cs)
      match pending, args with
      | none, args =>
        let g ← read t args
        return { g with options := options ++ g.options }
      | some c, [] => throw (.missingValue c)
      | some c, value :: args =>
        let g ← read t args
        return { g with options := options ++ (c.toString, value) :: g.options }
    | _ => do
      if t.isOrdered then return { operands := arg :: args }
      let g ← read t args
      return { g with operands := arg :: g.operands }

end OptionTable

namespace Work

/-- Reads the options of a program, and ends it if that is not possible, or if it was
only asked for help. -/
def options (t : OptionTable) (args : List String) : Work Given := do
  let t := { t with words := t.words ++ [("help", Takes.nothing, "help"), ("version", Takes.nothing, "version")] }
  match t.read args with
  | .ok g => if g.has "help" || g.has "version" then quit 0 else return g
  | .error e =>
    misuse t.failure e.text

/-- Complains that operands are missing, and ends the task. -/
def missingOperand {α : Type} (operands : List String) : Work α :=
  match operands.getLast? with
  | none => misuse 1 "missing operand"
  | some last => misuse 1 s!"missing operand after {Quoting.always last}"

/-- Complains about an operand too many, and ends the task. -/
def extraOperand {α : Type} (operand : String) : Work α :=
  misuse 1 s!"extra operand {Quoting.always operand}"

end Work

end Unnest.Host
