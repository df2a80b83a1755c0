import Unnest.Host.Mode
import Unnest.Host.Shell.Builtin.Variables

/-!
# Commands about running

The directory is changed, loops and functions are left, signals are sent and caught,
scripts are run from texts and files, and names are looked up.
-/

namespace Unnest.Host.Shell

namespace Act

/-! ## Directories -/

/-- The path that another leads to, without looking at the file system. -/
def logicalPath (path relative : String) : String :=
  let start := if Path.isAbsolute relative then [] else Files.names path
  let names := (Files.names relative).foldl (fun names name =>
    if name = "." then names else if name = ".." then names.dropLast else names ++ [name]) start
  "/" ++ "/".intercalate names

/-- Goes to a directory; why that fails, if it does. -/
def enter (target : String) (isPhysical : Bool) : Act (Option Fault) := do
  let s ← get
  let files := s.machine.files
  let path := if isPhysical then target else logicalPath s.path target
  let found :=
    if target = "" then .ok s.process.directory
    else files.findDirectory s.process.directory (if isPhysical then target else path)
  match found with
  | .error f => return some f
  | .ok directory => do
    let path := if isPhysical then files.pathOf directory else path
    let old := s.path
    modify fun s => { s with process := { s.process with directory }, path }
    assignText "OLDPWD" ((← textOf? "PWD").getD old)
    assignText "PWD" path
    for name in ["OLDPWD", "PWD"] do
      let b := (← binding? name).getD {}
      setBinding name { b with isExported := true }
    return none

/-- Goes to a directory. -/
def changeDirectory : Builtin := fun _ args => do
  let isRich ← isRich
  let (options, operands) ← letters "cd" "LPe@" args
  let isPhysical := (options.getLast?.map (·.1)) == some 'P'
  if isRich && operands.length > 1 then refuse "cd" 1 "too many arguments"
  let (target, isShown) ←
    match operands with
    | [] => do
      match ← textOf? "HOME" with
      | some home => pure (home, false)
      | none => if isRich then refuse "cd" 1 "HOME not set" else pure ("", false)
    | "-" :: _ => do
      match ← textOf? "OLDPWD" with
      | some old => pure (old, true)
      | none => if isRich then refuse "cd" 1 "OLDPWD not set" else pure (".", true)
    | target :: _ => pure (target, false)
  -- other directories to look in, for paths that do not say where they start
  let isPlain := !Path.isAbsolute target && !(["", ".", ".."].contains ((Files.names target).headD ""))
  let places ←
    if isPlain then do pure (((← textOf? "CDPATH").map fun p => Octets.split (· == ':') p).getD [])
    else pure []
  let s ← get
  let found := places.find? fun place =>
    (s.machine.files.findDirectory s.process.directory
      (if place = "" then target else place ++ "/" ++ target)).toOption.isSome
  let (path, isShown) :=
    match found with
    | some "" => (target, isShown)
    | some place => (place ++ "/" ++ target, true)
    | none => (target, isShown)
  match ← enter path isPhysical with
  | some f =>
    if isRich then refuse "cd" 1 s!"{target}: {f.text}" else refuse "cd" 2 s!"can't cd to {target}"
  | none =>
    if isShown then print "cd" ((← get).path ++ "\n") else return 0

/-- Prints the path of the directory. -/
def printDirectory : Builtin := fun _ args => do
  let (options, _) ← letters "pwd" "LP" args
  let s ← get
  let path :=
    if (options.getLast?.map (·.1)) == some 'P' then s.machine.files.pathOf s.process.directory
    else s.path
  print "pwd" (path ++ "\n")

/-- The directories that can be gone back to, with the one that the shell is in. -/
def showDirectories (name : String) : Act Nat := do
  let s ← get
  let home := (← textOf? "HOME").getD ""
  let short (path : String) : String :=
    if home != "" && path = home then "~"
    else
      match Octets.after? (home ++ "/") path with
      | some rest => if home != "" then "~/" ++ rest else path
      | none => path
  print name (" ".intercalate ((s.path :: s.directories).map short) ++ "\n")

/-- Goes to a directory and keeps the way back. -/
def pushDirectory : Builtin := fun _ args => do
  let s ← get
  match args with
  | [] =>
    match s.directories with
    | [] => refuse "pushd" 1 "no other directory"
    | top :: rest => do
      let old := s.path
      match ← enter top false with
      | some f => refuse "pushd" 1 s!"{top}: {f.text}"
      | none => do
        modify fun s => { s with directories := old :: rest }
        showDirectories "pushd"
  | target :: _ => do
    let old := s.path
    match ← enter target false with
    | some f => refuse "pushd" 1 s!"{target}: {f.text}"
    | none => do
      modify fun s => { s with directories := old :: s.directories }
      showDirectories "pushd"

/-- Goes back. -/
def popDirectory : Builtin := fun _ _ => do
  match (← get).directories with
  | [] => refuse "popd" 1 "directory stack empty"
  | top :: rest => do
    match ← enter top false with
    | some f => refuse "popd" 1 s!"{top}: {f.text}"
    | none => do
      modify fun s => { s with directories := rest }
      showDirectories "popd"

/-! ## Leaving -/

/-- A number for a status. -/
def statusNumber (name arg : String) : Act Nat := do
  if ← isRich then
    match Numeral.spaced? arg with
    | some n => return (n % 256).toNat
    | none => do
      complainAs name s!"{arg}: numeric argument required"
      setStatus 2
      if name = "exit" then throw .quit else throw .failed
  else number name arg

/-- Ends the shell. -/
def exitShell : Builtin := fun _ args => do
  let status ←
    match args with
    | [] => pure (← get).status
    | arg :: _ => statusNumber "exit" arg
  quit (status % 256)

/-- Leaves a function or a file. -/
def returnStatus : Builtin := fun _ args => do
  let s ← get
  let status ←
    match args with
    | [] => pure s.status
    | arg :: _ => statusNumber "return" arg
  if s.hidden.isEmpty && s.sources = 0 then
    if ← isRich then
      refuse "return" 1 "can only \x60return' from a function or sourced script"
    else quit status
  else
    setStatus status
    throw .leaveFunction

/-- Leaves loops. -/
def leaveLoops (name : String) (leave : Nat → Leave) : Builtin := fun _ args => do
  let count ←
    match args with
    | [] => pure 1
    | arg :: _ => number name arg
  let loops := (← get).loops
  if count = 0 then
    if ← isRich then refuse name 1 s!"{count}: loop count out of range"
    else refuse name 2 s!"Illegal number: {count}"
  else if loops = 0 then
    if ← isRich then complainAs name "only meaningful in a \x60for', \x60while', or \x60until' loop"
    return 0
  else
    setStatus 0
    throw (leave (min count loops))

/-! ## Scripts -/

/-- Runs its arguments as a script. -/
def evaluateArguments : Builtin := fun e args => do
  let args := if (← isRich) && args.head? == some "--" then args.tail else args
  let script := " ".intercalate args
  setStatus 0
  e.evaluate script
  return (← get).status

/-- Runs a file in the shell itself. -/
def readScript (name : String) : Builtin := fun e args => do
  let isRich ← isRich
  let args := if args.head? == some "--" then args.tail else args
  match args with
  | [] =>
    if isRich then refuse name 2 "filename argument required" else return 0
  | file :: arguments => do
    let isReadable (path : String) : Act Bool := isFileAt path
    let path? ←
      if Octets.has file '/' then pure (some file)
      else do
        let candidates := (← searchPath).map fun d => d ++ "/" ++ file
        let mut found : Option String := none
        for path in candidates do
          if found.isNone && (← isReadable path) then found := some path
        pure (if found.isNone && isRich then some file else found)
    let s ← get
    let text? : Except Fault String :=
      match path? with
      | none => .error .missing
      | some path => s.machine.files.read s.process.directory path
    match path?, text? with
    | none, _ => refuse name 2 s!"{file}: not found"
    | some _, .error f =>
      if isRich then
        complain s!"{file}: {f.text}"
        return 1
      else
        let reason :=
          match f with
          | .missing | .notDirectory => "No such file"
          | f => f.text
        refuse name 2 s!"cannot open {file}: {reason}"
    | some _, .ok text => do
      let before ← get
      let replaces := isRich && !arguments.isEmpty
      if replaces then modify fun s => { s with arguments }
      modify fun s => { s with sources := s.sources + 1, status := 0 }
      let result ← attempt (e.evaluate text)
      modify fun s => { s with sources := before.sources, line := before.line }
      if replaces then modify fun s => { s with arguments := before.arguments }
      match result with
      | .ok () | .error .leaveFunction => return (← get).status
      | .error leave => throw leave

/-! ## Signals -/

/-- The number of an event that can be caught: a signal, or the end of the shell. -/
def eventOrder (isRich : Bool) (event : String) : Nat :=
  (signalNumber? isRich event).getD 100

/-- Shows what is done on events. -/
def showTraps (events : List String) : Act Nat := do
  let s ← get
  let isRich := s.dialect == .rich
  let traps := (s.traps.filter fun t => events.isEmpty || events.contains t.1).mergeSort fun a b =>
    decide (eventOrder isRich a.1 ≤ eventOrder isRich b.1)
  let name (event : String) : String :=
    if isRich && !(["EXIT", "ERR", "DEBUG", "RETURN"].contains event) then "SIG" ++ event else event
  print "trap" (Octets.ofLines (traps.map fun (event, action) =>
    s!"trap -- {singleQuoted action} {name event}"))

/-- Says what is done on events. -/
def setTraps : Builtin := fun _ args => do
  let isRich ← isRich
  let (options, args) ← letters "trap" (if isRich then "lp" else "") args
  let event? (text : String) : Option String :=
    match signalNumber? isRich text with
    | some n => some (signalName isRich n)
    | none =>
      if isRich && ["ERR", "DEBUG", "RETURN"].contains text then some text else none
  if options.any (·.1 == 'p') then return ← showTraps (args.filterMap event?)
  match args with
  | [] => showTraps []
  | action :: events =>
    -- a number in place of an action stands for an event
    let (action?, events) :=
      if events.isEmpty || (Numeral.decimal? action).isSome then (none, action :: events)
      else (if action = "-" then none else some action, events)
    let mut status := 0
    for text in events do
      match event? text with
      | none =>
        if isRich then complainAs "trap" s!"{text}: invalid signal specification"
        else write 2 s!"trap: {text}: bad trap\n"
        status := 1
      | some event =>
        let s ← get
        let others := s.traps.filter (·.1 != event)
        let number? := (signalNumber? isRich event).filter (· != 0)
        let ignored := s.process.ignored.filter fun g => some g.number != number?
        let (traps, ignored) :=
          match action? with
          | none => (others, ignored)
          | some "" => (others ++ [(event, "")], ignored ++ (number?.map (⟨·⟩ : Nat → Signal)).toList)
          | some action => (others ++ [(event, action)], ignored)
        set { s with traps, process := { s.process with ignored } }
    return status

/-- The process that an argument means: a number, or a job by its place. -/
def processOf? (arg : String) : Act (Option Int) := do
  match arg.toList with
  | '%' :: cs =>
    let s ← get
    match Numeral.inBase? 10 cs with
    | some n => return (s.jobs[n - 1]?).map fun j => (j.process : Int)
    | none => return s.jobs.getLast?.map fun j => (j.process : Int)
  | _ => return Numeral.spaced? arg

/-- Whether there is a process that a signal can be sent to. -/
def isAlive (process : Nat) : Act Bool := do
  let s ← get
  return process = s.process.number || process = s.mainProcess || process = s.process.parent ||
    process = 1 || s.waiting.any (·.1 == process)

/-- Sends a signal to a process; whether there is one. -/
def send (signal : Signal) (process : Nat) : Act Bool := do
  if !(← isAlive process) then return false
  if signal.number != 0 then
    if (← get).waiting.any (·.1 == process) then
      if signal.isFatal then
        modify fun s =>
          { s with
            waiting := s.waiting.filter (·.1 != process)
            jobs := s.jobs.map fun j =>
              if j.process = process then { j with status? := some (.signal signal) } else j }
    else modify fun s => { s with machine := s.machine.post process signal }
  return true

/-- The names of all signals, or of those with numbers. -/
def listSignals (numbers : List String) : Act Nat := do
  let isRich ← isRich
  if numbers.isEmpty then
    if isRich then return 0
    print "kill" (Octets.ofLines ("0" :: (List.range Signal.limit).map fun n => signalName isRich (n + 1)))
  else
    let mut status := 0
    for text in numbers do
      match Numeral.decimal? text with
      | some n =>
        let n := if n > 128 then n - 128 else n
        if n ≤ Signal.limit then
          let _ ← print "kill" (signalName isRich n ++ "\n")
        else if isRich then
          complainAs "kill" s!"{text}: invalid signal specification"
          status := 1
        else refuse "kill" 2 s!"invalid signal number or exit status: {text}"
      | none =>
        match signalNumber? isRich text with
        | some n =>
          let _ ← print "kill" s!"{n}\n"
        | none =>
          if isRich then
            complainAs "kill" s!"{text}: invalid signal specification"
            status := 1
          else refuse "kill" 2 s!"invalid signal number or exit status: {text}"
    return status

/-- Sends signals to processes. -/
def kill : Builtin := fun _ args => do
  let isRich ← isRich
  let usage {α : Type} : Act α :=
    if isRich then
      refuse "kill" 2
        "usage: kill [-s sigspec | -n signum | -sigspec] pid | jobspec ... or kill -l [sigspec]"
    else
      refuse "kill" 2
        "Usage: kill [-s sigspec | -signum | -sigspec] [pid | job]... or\nkill -l [exitstatus]"
  let (signal, targets) ←
    match args with
    | [] => usage
    | "-l" :: numbers => return ← listSignals numbers
    | "-L" :: numbers => return ← listSignals numbers
    | "--" :: targets => pure (Signal.termination, targets)
    | option :: rest =>
      match option.toList with
      | '-' :: c :: cs =>
        let text := String.ofList (c :: cs)
        let (name, rest) :=
          match text, rest with
          | "s", name :: rest => (name, rest)
          | "n", name :: rest => if isRich then (name, rest) else (text, name :: rest)
          | _, rest =>
            if c = 's' && !cs.isEmpty && !isRich && (signalNumber? isRich text).isNone then
              (String.ofList cs, rest)
            else (text, rest)
        match (signalNumber? isRich name).filter fun n => n != 0 || isRich || name = "0" with
        | some n => pure (⟨n⟩, if rest.head? == some "--" then rest.tail else rest)
        | none =>
          if isRich then refuse "kill" 1 s!"{name}: invalid signal specification"
          else if text = "s" || c = 's' then refuse "kill" 2 s!"invalid signal number or name: {name}"
          else refuse "kill" 2 s!"Illegal option -{c}"
      | _ => pure (Signal.termination, option :: rest)
  if targets.isEmpty then usage
  let mut status := 0
  for target in targets do
    match ← processOf? target with
    | none =>
      if isRich then
        let text :=
          if target.startsWith "%" then s!"{target}: no such job"
          else s!"{target}: arguments must be process or job IDs"
        complainAs "kill" text
        status := 1
      else if target.startsWith "%" then refuse "kill" 2 s!"No such job: {target}"
      else refuse "kill" 2 s!"Illegal number: {target}"
    | some n =>
      let s ← get
      let process := if n = 0 then s.process.number else n.natAbs
      if !(← send signal process) then
        if isRich then complainAs "kill" s!"({target}) - No such process"
        else complainAs "kill" "No such process\n"
        status := 1
  return status

/-! ## Jobs -/

/-- Waits for commands beside the shell. -/
def waitJobs : Builtin := fun e args => do
  let isRich ← isRich
  let args := if isRich then args.filter fun a => !(["-n", "-f"].contains a) else args
  if args.isEmpty then
    for job in (← get).jobs do
      let _ ← e.await job.process
    modify fun s => { s with jobs := [] }
    return 0
  else
    let mut status := 0
    for arg in args do
      match ← processOf? arg with
      | none =>
        if isRich then
          complainAs "wait" s!"\x60{arg}': not a pid or valid job spec"
          status := 1
        else if arg.startsWith "%" then refuse "wait" 2 s!"No such job: {arg}"
        else refuse "wait" 2 s!"Illegal number: {arg}"
      | some n =>
        match ← e.await n.natAbs with
        | some ended =>
          match ended with
          | .signal g => if !isRich && g.number != 13 && g.number != 2 then write 2 (g.description ++ "\n")
          | .code _ => pure ()
          status := ended.number
        | none =>
          if isRich then complainAs "wait" s!"pid {arg} is not a child of this shell"
          status := 127
    return status

/-! ## Names -/

/-- The commands that are special in the plain shell. -/
def specialNames : List String :=
  [":", ".", "break", "continue", "eval", "exec", "exit", "export", "readonly", "return", "set", "shift",
    "times", "trap", "unset"]

/-- What a name stands for where a command is expected. -/
inductive Meaning where
  | keyword
  | aliased (text : String)
  | function
  | builtin
  | program (path : String)
  deriving Repr

/-- What a name stands for, if it stands for something. -/
def meaning? (builtins : List String) (name : String) : Act (Option Meaning) := do
  let s ← get
  let isRich := s.dialect == .rich
  if (reservedWords isRich).contains name then return some .keyword
  match s.aliases.lookup name with
  | some text => if !isRich || s.options.contains "expand_aliases" then return some (.aliased text)
  | none => pure ()
  if s.functions.any (·.1 == name) then return some .function
  if builtins.contains name then return some .builtin
  return (← findProgram name).map .program

/-- Shows what names stand for, in words. -/
def showMeanings (command : String) (builtins names : List String) : Act Nat := do
  let isRich ← isRich
  let mut status := 0
  for name in names do
    let text? ←
      match ← meaning? builtins name with
      | some .keyword => pure (some s!"{name} is a shell keyword")
      | some (.aliased text) =>
        if isRich then pure (some s!"{name} is aliased to \x60{text}'")
        else pure (some s!"{name} is an alias for {text}")
      | some .function =>
        let kind := if isRich then "function" else "shell function"
        pure (some s!"{name} is a {kind}")
      | some .builtin =>
        let kind := if specialNames.contains name && !isRich then "special shell builtin" else "shell builtin"
        pure (some s!"{name} is a {kind}")
      | some (.program path) => pure (some s!"{name} is {path}")
      | none => pure none
    match text? with
    | some text =>
      let _ ← print command (text ++ "\n")
    | none =>
      if isRich then
        complainAs command s!"{name}: not found"
        status := 1
      else
        let _ ← print command s!"{name}: not found\n"
        status := 127
  return status

/-- Shows what names stand for. -/
def typeNames (builtins : List String) : Builtin := fun _ args => do
  if !(← isRich) then return ← showMeanings "type" builtins args
  let (options, names) ← letters "type" "afptP" args
  let has (c : Char) : Bool := options.any (·.1 == c)
  if has 't' || has 'p' || has 'P' then
    let mut status := 0
    for name in names do
      match ← meaning? builtins name with
      | some m =>
        let text :=
          if has 't' then
            match m with
            | .keyword => "keyword\n"
            | .aliased _ => "alias\n"
            | .function => "function\n"
            | .builtin => "builtin\n"
            | .program _ => "file\n"
          else
            match m with
            | .program path => path ++ "\n"
            | _ => ""
        let text ←
          if has 'P' then do pure (((← findProgram name).map (· ++ "\n")).getD "")
          else pure text
        let _ ← print "type" text
      | none => status := 1
    return status
  showMeanings "type" builtins names

/-- Shows how names would be written to be run. -/
def showCommands (builtins names : List String) : Act Nat := do
  let isRich ← isRich
  let mut status := 0
  for name in names do
    let text? ←
      match ← meaning? builtins name with
      | some (.aliased text) =>
        pure (some (s!"alias {name}=" ++ singleQuoted text))
      | some (.program path) => pure (some path)
      | some _ => pure (some name)
      | none => pure none
    match text? with
    | some text =>
      let _ ← print "command" (text ++ "\n")
    | none => status := if isRich then 1 else 127
  return status

/-- Gives commands other names, or shows them. -/
def setAliases : Builtin := fun _ args => do
  let isRich ← isRich
  let shown (name text : String) : String :=
    (if isRich then "alias " else "") ++ name ++ "=" ++ singleQuoted text ++ "\n"
  let args := args.filter (· != "-p")
  if args.isEmpty then
    let aliases := (← get).aliases.mergeSort fun a b => decide (a.1 ≤ b.1)
    return ← print "alias" (String.join (aliases.map fun (name, text) => shown name text))
  let mut status := 0
  for arg in args do
    match Octets.cut '=' arg with
    | (name, some text) =>
      modify fun s => { s with aliases := s.aliases.filter (·.1 != name) ++ [(name, text)] }
    | (name, none) =>
      match (← get).aliases.lookup name with
      | some text =>
        let _ ← print "alias" (shown name text)
      | none =>
        if isRich then complainAs "alias" s!"{name}: not found"
        else write 2 s!"alias: {name} not found\n"
        status := 1
  return status

/-- Takes other names of commands away. -/
def unsetAliases : Builtin := fun _ args => do
  let (options, names) ← letters "unalias" "a" args
  if options.any (·.1 == 'a') then
    modify fun s => { s with aliases := [] }
    return 0
  let mut status := 0
  for name in names do
    if (← get).aliases.any (·.1 == name) then
      modify fun s => { s with aliases := s.aliases.filter (·.1 != name) }
    else
      if ← isRich then complainAs "unalias" s!"{name}: not found"
      else write 2 s!"unalias: {name} not found\n"
      status := 1
  return status

/-- Looks programs up. -/
def hash : Builtin := fun _ args => do
  let names := args.filter fun a => !a.startsWith "-"
  let mut status := 0
  for name in names do
    if (← findProgram name).isNone then
      complainAs "hash" s!"{name}: not found"
      status := 1
  return status

/-! ## The process -/

/-- Shows or changes the permissions that new files do not get. -/
def changeMask : Builtin := fun _ args => do
  let (options, operands) ← letters "umask" "Sp" args
  let mask := (← get).process.mask
  match operands with
  | [] =>
    if options.any (·.1 == 'S') then
      let given := 0o777 - (mask &&& 0o777)
      let part (who : String) (shift : Nat) : String :=
        let n := (given >>> shift) &&& 7
        who ++ "=" ++ (if n &&& 4 != 0 then "r" else "") ++ (if n &&& 2 != 0 then "w" else "") ++
          (if n &&& 1 != 0 then "x" else "")
      print "umask" (part "u" 6 ++ "," ++ part "g" 3 ++ "," ++ part "o" 0 ++ "\n")
    else print "umask" (Mode.octal mask ++ "\n")
  | text :: _ =>
    match Mode.read? text with
    | some (.number n) =>
      modify fun s => { s with process := { s.process with mask := n &&& 0o777 } }
      return 0
    | some (.changes cs) =>
      let given := (Mode.Spec.changes cs).apply 0 false (0o777 - (mask &&& 0o777))
      modify fun s => { s with process := { s.process with mask := 0o777 - (given &&& 0o777) } }
      return 0
    | none =>
      if ← isRich then
        complainAs "umask" s!"{text}: octal number out of range"
        return 1
      else if text.toList.head?.any Char.isDigit then refuse "umask" 2 s!"Illegal number: {text}"
      else refuse "umask" 2 s!"Illegal mode: {text}"

/-- Shows limits, which are the widest ones, and takes others without minding them. -/
def limits : Builtin := fun _ args => do
  let operands := args.filter fun a => !a.startsWith "-"
  if operands.isEmpty then print "ulimit" "unlimited\n" else return 0

/-- Shows how much time was used. -/
def times : Builtin := fun _ _ => do
  let zero := if ← isRich then "0m0.000s" else "0m0.000000s"
  print "times" s!"{zero} {zero}\n{zero} {zero}\n"

/-- Prints its arguments in a format, or lets a variable have the text. -/
def printFormatted : Builtin := fun _ args => do
  match ← isRich, args with
  | true, "-v" :: name :: args => do
    let args := if args.head? == some "--" then args.tail else args
    match args with
    | [] => refuse "printf" 2 "usage: printf [-v var] format [arguments]"
    | format :: args => do
      let location ← location
      match ← work s!"{location}: printf" (Utility.formatted .richShell format args) with
      | .ok p => do
        assignText name p.text
        return if p.isWrong then 1 else 0
      | .error status => return status.number
  | _, args => byUtility "printf" (Utility.printFormat (← printer)) args

end Act

end Unnest.Host.Shell
