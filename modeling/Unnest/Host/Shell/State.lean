import Unnest.Host.Pattern
import Unnest.Host.Shell.Reader
import Unnest.Host.Utility.Condition

/-!
# The state of a shell

A shell at work has variables and functions, arguments and options, and the process
that it is.  What it does is a change of this state, which can leave the command that it
is at: a loop or a function is left, the shell ends by itself or is ended by a signal.
What happened before stays done.
-/

namespace Unnest.Host.Shell

/-- What a variable holds. -/
inductive Value where
  | text (s : String)
  | indexed (elements : List (Nat × String))
  | keyed (elements : List (String × String))
  deriving DecidableEq, Repr, Inhabited

/-- A variable. -/
structure Binding where
  value? : Option Value := none
  isExported : Bool := false
  isReadonly : Bool := false
  isInteger : Bool := false
  isLower : Bool := false
  isUpper : Bool := false
  /-- Whether the value is the name of another variable, which is meant instead. -/
  isReference : Bool := false
  deriving Repr, Inhabited

/-- A command that goes on beside the shell. -/
structure Job where
  process : Nat
  /-- How it ended, once it was run. -/
  status? : Option ExitStatus := none

/-- What a shell knows, apart from the machine that it runs on. -/
structure Memory where
  process : Process := {}
  dialect : Dialect := .plain
  /-- The name that the shell was called by. -/
  name : String := "sh"
  arguments : List String := []
  bindings : List (String × Binding) := []
  functions : List (String × Command) := []
  aliases : List (String × String) := []
  /-- The options that are on, by their names. -/
  options : List String := []
  /-- The number of the status of the last command. -/
  status : Nat := 0
  /-- The number of the status of the last script that a word was made from. -/
  captured : Nat := 0
  /-- The numbers of the parts of the last pipeline. -/
  statuses : List Nat := []
  /-- The process of the last command that was left to go on. -/
  lastJob? : Option Nat := none
  /-- What is run on an event, by the name of the event. -/
  traps : List (String × String) := []
  /-- What functions at work hide of the variables. -/
  hidden : List (List (String × Option Binding)) := []
  /-- The names of the functions at work. -/
  callers : List String := []
  loops : Nat := 0
  /-- Whether somebody waits for how the command ends. -/
  isTested : Bool := false
  documents : Array Word := #[]
  line : Nat := 1
  /-- The process of the first shell. -/
  mainProcess : Nat := 1
  /-- How deep the shell is inside of others. -/
  depth : Nat := 0
  /-- Whether files are being read in place of the script. -/
  sources : Nat := 0
  /-- The path of the directory that the shell is in, as it was reached. -/
  path : String := "/"
  directories : List String := []
  /-- How far the letters of an option were read. -/
  optionOffset : Nat := 0
  isInTrap : Bool := false
  deriving Inhabited

/-- A command that is yet to be run beside the shell. -/
structure Waiting where
  memory : Memory
  command : Command
  /-- When it started. -/
  clock : Nat := 0

/-- A shell. -/
structure Shell extends Memory where
  machine : Machine := {}
  jobs : List Job := []
  /-- What the jobs that were not run yet are to do. -/
  waiting : List (Nat × Waiting) := []
  /-- Until when the jobs were run as far as they get. -/
  settled : Nat := 0
  deriving Inhabited

/-- How a command can be left. -/
inductive Leave where
  /-- The shell ends. -/
  | quit
  /-- A program has run in place of the shell. -/
  | replaced (status : ExitStatus)
  /-- The script is given up. -/
  | abandon
  | breakLoop (levels : Nat)
  | nextRound (levels : Nat)
  | leaveFunction
  | signal (s : Signal)
  /-- A command of the shell failed, with a complaint. -/
  | failed
  /-- Time ran out. -/
  | stall
  deriving DecidableEq, Repr, Inhabited

/-- What a shell does. -/
abbrev Act := ExceptT Leave (StateM Shell)

/-- What the parts of a shell need of each other, one level further in. -/
structure Engine where
  launch : Launcher
  execute : Command → Act Unit
  /-- Runs the last command of a shell. -/
  finish : Command → Act Unit
  /-- What a script prints. -/
  capture : String → Act String
  /-- Runs a script in the shell itself. -/
  evaluate : String → Act Unit
  /-- Runs a script beside the shell: the number of a descriptor that leads to it. -/
  attach : (script : String) → (isInput : Bool) → Act Nat
  /-- How a command beside the shell ended, which is waited for. -/
  await : (process : Nat) → Act (Option ExitStatus)

namespace Act

def isRich : Act Bool := return (← get).dialect == .rich

/-- What stands in front of complaints. -/
def location : Act String := do
  let s ← get
  return if s.dialect == .rich then s!"{s.name}: line {s.line}" else s!"{s.name}: {s.line}"

/-- Takes the machine out of the state, which has to be given back. -/
def takeMachine : Act Machine := modifyGet fun s => (s.machine, { s with machine := {} })

/-- Does the work of a utility within the shell. -/
def work {α : Type} (name : String) (w : Work α) : Act (Except ExitStatus α) := do
  let machine ← takeMachine
  let process := (← get).process
  let (result, t) := w.run.run { machine, process, name }
  modify fun s => { s with machine := t.machine, process := t.process }
  return result

/-- Writes to a descriptor and does not mind if that fails. -/
def write (descriptor : Nat) (text : String) : Act Unit := do
  let _ ← work "" (Work.tryWrite descriptor text)

/-- Shows what is wrong. -/
def complain (text : String) : Act Unit := do
  let location ← location
  write 2 s!"{location}: {text}\n"

def setStatus (n : Nat) : Act Unit := modify fun s => { s with status := n }

/-- Ends the shell. -/
def quit {α : Type} (status : Nat) : Act α := do
  setStatus status
  throw .quit

/-- Shows what is wrong and ends the script. -/
def fail {α : Type} (status : Nat) (text : String) : Act α := do
  complain text
  setStatus status
  throw (if ← isRich then .abandon else .quit)

/-- Whether an option is on. -/
def isOn (option : String) : Act Bool := return (← get).options.contains option

def setOption (option : String) (value : Bool) : Act Unit :=
  modify fun s =>
    let others := s.options.filter (· != option)
    { s with options := if value then others ++ [option] else others }

/-- Keeps parts of what the shell knows as they were, whatever happens. -/
def restoring {α : Type} (restore : Memory → Shell → Shell) (a : Act α) : Act α := do
  let before := (← get).toMemory
  let result ← (ExceptT.lift a.run : Act (Except Leave α))
  modify (restore before)
  match result with
  | .ok value => return value
  | .error leave => throw leave

/-- Does something and looks at how it was left. -/
def attempt {α : Type} (a : Act α) : Act (Except Leave α) := ExceptT.lift a.run

end Act

/-! ## Variables -/

namespace Value

/-- The text of a variable: of an array the first element. -/
def text? : Value → Option String
  | .text s => some s
  | .indexed elements => elements.lookup 0
  | .keyed elements => elements.lookup "0"

/-- The elements of a variable. -/
def elements : Value → List String
  | .text s => [s]
  | .indexed elements => elements.map (·.2)
  | .keyed elements => elements.map (·.2)

/-- The indices of the elements. -/
def keys : Value → List String
  | .text _ => ["0"]
  | .indexed elements => elements.map fun e => toString e.1
  | .keyed elements => elements.map (·.1)

/-- The element at an index. -/
def element? (v : Value) (index : Nat) : Option String :=
  match v with
  | .text s => if index = 0 then some s else none
  | .indexed elements => elements.lookup index
  | .keyed elements => elements.lookup (toString index)

/-- Puts an element at an index, in order. -/
def insertAt (index : Nat) (s : String) : List (Nat × String) → List (Nat × String)
  | [] => [(index, s)]
  | e :: es =>
    if index < e.1 then (index, s) :: e :: es
    else if index = e.1 then (index, s) :: es
    else e :: insertAt index s es

end Value

namespace Act

/-- A variable, if it exists. -/
def binding? (name : String) : Act (Option Binding) := return (← get).bindings.lookup name

/-- The name that is meant by a name, through references. -/
def resolve (name : String) : (steps : Nat) → Act String
  | 0 => return name
  | steps + 1 => do
    match ← binding? name with
    | some b =>
      match b.isReference, b.value? with
      | true, some (.text other) => resolve other steps
      | _, _ => return name
    | none => return name

/-- Changes a variable. -/
def setBinding (name : String) (b : Binding) : Act Unit :=
  modify fun s =>
    { s with
      bindings :=
        if s.bindings.any (·.1 == name) then
          s.bindings.map fun e => if e.1 == name then (name, b) else e
        else s.bindings ++ [(name, b)] }

/-- Forgets a variable. -/
def removeBinding (name : String) : Act Unit :=
  modify fun s => { s with bindings := s.bindings.filter (·.1 != name) }

/-- Complains that a variable cannot be changed. -/
def refuseReadonly {α : Type} (name : String) : Act α := do
  if ← isRich then fail 1 s!"{name}: readonly variable" else fail 2 s!"{name}: is read only"

/-- Gives a variable a value. -/
def assign (name : String) (value : Value) : Act Unit := do
  let name ← resolve name 8
  let b := (← binding? name).getD {}
  if b.isReadonly then refuseReadonly name
  let change (s : String) : String :=
    if b.isLower then s.map Char.toLower else if b.isUpper then s.map Char.toUpper else s
  let value :=
    match value with
    | .text s => .text (change s)
    | .indexed es => .indexed (es.map fun e => (e.1, change e.2))
    | .keyed es => .keyed (es.map fun e => (e.1, change e.2))
  setBinding name { b with value? := some value, isExported := b.isExported || (← isOn "allexport") }
  if name = "OPTIND" then modify fun s => { s with optionOffset := 0 }

/-- Gives a variable a text. -/
def assignText (name text : String) : Act Unit := do
  let target ← resolve name 8
  match (← binding? target).bind (·.value?) with
  | some (.indexed es) => assign target (.indexed (Value.insertAt 0 text es))
  | _ => assign target (.text text)

/-- The text of a variable, if it has one. -/
def textOf? (name : String) : Act (Option String) := do
  let name ← resolve name 8
  return ((← binding? name).bind (·.value?)).bind Value.text?

/-- The options with the letters that show that they are on, in order. -/
def optionLetters : Dialect → List (String × Char)
  | .plain =>
    [("nounset", 'u'), ("notify", 'b'), ("allexport", 'a'), ("noclobber", 'C'), ("emacs", 'E'),
      ("vi", 'V'), ("verbose", 'v'), ("xtrace", 'x'), ("stdin", 's'), ("noexec", 'n'),
      ("monitor", 'm'), ("interactive", 'i'), ("ignoreeof", 'I'), ("noglob", 'f'), ("errexit", 'e')]
  | .rich =>
    [("allexport", 'a'), ("notify", 'b'), ("errexit", 'e'), ("noglob", 'f'), ("hashall", 'h'),
      ("interactive", 'i'), ("keyword", 'k'), ("monitor", 'm'), ("noexec", 'n'), ("privileged", 'p'),
      ("onecmd", 't'), ("nounset", 'u'), ("verbose", 'v'), ("xtrace", 'x'), ("braceexpand", 'B'),
      ("noclobber", 'C'), ("errtrace", 'E'), ("histexpand", 'H'), ("physical", 'P'), ("functrace", 'T'),
      ("command", 'c'), ("stdin", 's')]

/-- The value of a parameter that is one sign or a number; `none` if it has none. -/
def parameter? (name : String) : Act (Option String) := do
  let s ← get
  match name with
  | "#" => return some (toString s.arguments.length)
  | "?" => return some (toString s.status)
  | "$" => return some (toString s.mainProcess)
  | "!" => return s.lastJob?.map toString
  | "0" => return some s.name
  | "-" =>
    let letters := (optionLetters s.dialect).filterMap fun (option, letter) =>
      if s.options.contains option then some letter else none
    return some (String.ofList letters)
  | "LINENO" => return some (toString s.line)
  | _ =>
    match Numeral.decimal? name with
    | some n => return if n = 0 then some s.name else s.arguments[n - 1]?
    | none =>
      if s.dialect == .rich then
        match name with
        | "BASHPID" => return some (toString s.process.number)
        | "SECONDS" => return some (toString (s.machine.clock / Nat.pow 10 9))
        | "BASH_SUBSHELL" => return some (toString s.depth)
        | "FUNCNAME" => if s.callers.isEmpty then textOf? name else return s.callers.head?
        | "PIPESTATUS" => return s.statuses.head?.map toString
        | _ => textOf? name
      else textOf? name

/-- The characters that separate fields. -/
def separators : Act (List Char) := return ((← textOf? "IFS").getD " \t\n").toList

/-- The environment for programs: all variables that are exported. -/
def environment : Act (List (String × String)) := do
  return (← get).bindings.filterMap fun (name, b) =>
    if b.isExported then
      match b.value? with
      | some (.text s) => some (name, s)
      | _ => none
    else none

/-- Hides a variable until the function at work ends. -/
def hide (name : String) : Act Unit := do
  let b? ← binding? name
  modify fun s =>
    match s.hidden with
    | frame :: frames =>
      if frame.any (·.1 == name) then s else { s with hidden := ((name, b?) :: frame) :: frames }
    | [] => s

/-- Brings the variables back that a function has hidden. -/
def unhide (frame : List (String × Option Binding)) : Act Unit :=
  frame.forM fun (name, b?) =>
    match b? with
    | some b => setBinding name b
    | none => removeBinding name

end Act

end Unnest.Host.Shell
