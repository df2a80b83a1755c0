import Unnest.Host.Shell.Redirection

/-!
# Commands of the shell itself

Some commands are done by the shell, because they change it or because it is quicker.
Those that the language needs are special: where one of them fails, the plain shell
ends, and the assignments in front of them stay.
-/

namespace Unnest.Host.Shell

/-- A command of the shell: given its arguments, the number of its status. -/
abbrev Builtin := Engine → List String → Act Nat

namespace Act

/-- Shows what is wrong with a command of the shell. -/
def complainAs (name text : String) : Act Unit := complain s!"{name}: {text}"

/-- Shows what is wrong with a command of the shell and leaves it. -/
def refuse {α : Type} (name : String) (status : Nat) (text : String) : Act α := do
  complainAs name text
  setStatus status
  throw .failed

/-- What a utility does, done by the shell. -/
def byUtility (name : String) (u : Utility) (args : List String) : Act Nat := do
  let location ← location
  match ← work s!"{location}: {name}" (u args) with
  | .ok n => return n
  | .error (.code n) => return n
  | .error (.signal s) => throw (.signal s)

/-- Prints a text; the number of the status. -/
def print (name text : String) : Act Nat := do
  let location ← location
  let isRich ← isRich
  let write : Work Nat := do
    match ← Work.tryWrite 1 text with
    | none => return 0
    | some .brokenPipe =>
      if (← Work.process).ignored.contains ⟨13⟩ then
        Work.complain (if isRich then s!"write error: {Fault.brokenPipe.text}" else s!"{name}: I/O error")
        return 1
      else throw (.signal ⟨13⟩)
    | some f => do
      Work.complain (if isRich then s!"write error: {f.text}" else s!"{name}: I/O error")
      return 1
  match ← work s!"{location}: {name}" write with
  | .ok n => return n
  | .error (.code n) => return n
  | .error (.signal s) => throw (.signal s)

/-- The printer that a shell is. -/
def printer : Act Printer := return if ← isRich then .richShell else .plainShell

/-- The options that one argument holds, and whether the last takes the next argument. -/
def readLetters (name known : String) : List Char → Act (List (Char × String) × Option Char)
  | [] => return ([], none)
  | c :: cs => do
    match OptionTable.letter? c known.toList with
    | none =>
      if ← isRich then refuse name 2 s!"-{c}: invalid option"
      else refuse name 2 s!"Illegal option -{c}"
    | some .nothing => do
      let (given, pending) ← readLetters name known cs
      return ((c, "") :: given, pending)
    | some _ =>
      if cs.isEmpty then return ([], some c) else return ([(c, String.ofList cs)], none)

/-- The letters among the leading arguments, of which some take a value, and the other
arguments. -/
def letters (name known : String) : List String → Act (List (Char × String) × List String)
  | [] => return ([], [])
  | arg :: args => do
    match arg.toList with
    | ['-', '-'] => return ([], args)
    | '-' :: c :: cs =>
      let (given, pending) ← readLetters name known (c :: cs)
      match pending, args with
      | none, args => do
        let (more, rest) ← letters name known args
        return (given ++ more, rest)
      | some c, value :: args => do
        let (more, rest) ← letters name known args
        return (given ++ (c, value) :: more, rest)
      | some c, [] =>
        if ← isRich then refuse name 2 s!"-{c}: option requires an argument"
        else refuse name 2 s!"No arg for -{c} option"
    | _ => return ([], arg :: args)

/-- A number from an argument. -/
def number (name arg : String) : Act Nat := do
  match (Numeral.spaced? arg).filter fun n => decide (0 ≤ n ∧ n < Int.pow 2 31) with
  | some n => return n.toNat
  | none =>
    if ← isRich then refuse name 1 s!"{arg}: numeric argument required"
    else refuse name 2 s!"Illegal number: {arg}"

/-! ## Signals -/

/-- The name of a signal in a shell. -/
def signalName (isRich : Bool) (n : Nat) : String :=
  if n = 0 then "EXIT"
  else if n = 16 && !isRich then "16"
  else
    match (⟨n⟩ : Signal).name? with
    | some name => name
    | none =>
      if n < 34 then toString n
      else if n = 34 then "RTMIN"
      else if n ≤ 49 then s!"RTMIN+{n - 34}"
      else if n = 64 then "RTMAX"
      else s!"RTMAX-{64 - n}"

/-- The number of a signal by its name or number.  The rich shell knows names with the
letters that all of them can start with. -/
def signalNumber? (isRich : Bool) (text : String) : Option Nat :=
  match Numeral.decimal? text with
  | some n => if n ≤ Signal.limit then some n else none
  | none =>
    let name := text.map Char.toUpper
    let name := if isRich then (Octets.after? "SIG" name).getD name else name
    -- the plain shell reads the letters in either case, but only all names as they are
    let names := (List.range (Signal.limit + 1)).map fun n => (signalName isRich n, n)
    match names.lookup name with
    | some n => some n
    | none =>
      if isRich then
        match name with
        | "CLD" => some 17
        | "POLL" => some 29
        | "IOT" => some 6
        | _ => none
      else none

/-! ## Programs -/

/-- Where programs are looked for. -/
def searchPath : Act (List String) := do
  return match ← textOf? "PATH" with
    | some path => (Octets.split (· == ':') path).map fun d => if d = "" then "." else d
    | none => []

/-- Whether a path leads to a program: a file that can be run. -/
def isProgram (path : String) : Act Bool := do
  let s ← get
  match s.machine.files.find? s.process.directory path with
  | some i =>
    let n := s.machine.files.get i
    return n.isFile && n.isExecutable
  | none => return false

/-- Whether a path leads to a file. -/
def isFileAt (path : String) : Act Bool := do
  let s ← get
  match s.machine.files.find? s.process.directory path with
  | some i => return (s.machine.files.get i).isFile
  | none => return false

/-- The path of a program by its name. -/
def findProgram (name : String) : Act (Option String) := do
  if Octets.has name '/' then
    return if ← isProgram name then some name else none
  let candidates := (← searchPath).map fun d =>
    if d = "." then "./" ++ name else if Files.isOpenEnded d then d ++ name else d ++ "/" ++ name
  for path in candidates do
    if ← isProgram path then return some path
  return none

end Act

end Unnest.Host.Shell
