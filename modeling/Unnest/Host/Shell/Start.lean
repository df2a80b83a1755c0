import Unnest.Host.Shell.Run

/-!
# Starting a shell

A shell is told by its arguments where its commands are: in an argument, in a file, or
in what it reads.  What it finds in the environment become its variables.
-/

namespace Unnest.Host.Shell

/-- How a shell is to start. -/
structure Start where
  /-- Whether the first operand is a script, and not the path of one. -/
  isScript : Bool := false
  /-- Whether the script is read, and all operands are arguments. -/
  readsInput : Bool := false
  /-- The options that were turned on and off. -/
  changes : List (String × Bool) := []
  operands : List String := []

namespace Start

/-- What is wrong with the arguments of a shell. -/
inductive Mistake where
  | unknown (option : String)
  | unknownName (isShop : Bool) (name : String)
  | noScript
  /-- Nothing is wrong, but nothing is to be done either. -/
  | nothing

/-- The words among the options of the rich shell that take no value. -/
def plainWords : List String :=
  ["debug", "debugger", "login", "noediting", "noprofile", "norc", "posix", "pretty-print", "restricted",
    "verbose"]

/-- Adds the letters of an argument. -/
def readLetters (isRich isOn : Bool) (s : Start) :
    List Char → List String → Except Mistake (Start × List String)
  | [], args => .ok (s, args)
  | c :: cs, args =>
    if c = 'c' then readLetters isRich isOn { s with isScript := isOn } cs args
    else if c = 's' then
      readLetters isRich isOn { s with readsInput := true, changes := s.changes ++ [("stdin", isOn)] } cs args
    else if c = 'o' || (c = 'O' && isRich) then
      match args with
      | [] => .error .nothing
      | name :: args =>
        let known := if c = 'O' then Act.shopNames else Act.namedOptions isRich
        if known.contains name then
          readLetters isRich isOn { s with changes := s.changes ++ [(name, isOn)] } cs args
        else .error (.unknownName (c = 'O') name)
    else
      match (Act.letterOptions isRich).lookup c with
      | some name => readLetters isRich isOn { s with changes := s.changes ++ [(name, isOn)] } cs args
      | none =>
        if c = 'l' || c = 'i' || (isRich && (c = 'r' || c = 'D')) then readLetters isRich isOn s cs args
        else .error (.unknown ((if isOn then "-" else "+") ++ c.toString))

/-- Reads the arguments of a shell; at most `steps` of them are options. -/
def read (isRich : Bool) (s : Start) : (steps : Nat) → List String → Except Mistake Start
  | 0, args => .ok { s with operands := args }
  | _, [] => .ok s
  | steps + 1, arg :: args =>
    match arg.toList with
    | ['-'] => .ok { s with operands := args }
    | '-' :: '-' :: word =>
      let word := String.ofList word
      if !isRich then if word = "" then .ok { s with operands := args } else .error (.unknown "--")
      else if word = "" then .ok { s with operands := args }
      else if word = "help" || word = "version" then .error .nothing
      else if word = "rcfile" || word = "init-file" then read isRich s steps args.tail
      else if plainWords.contains word then read isRich s steps args
      else .error (.unknown arg)
    | '-' :: c :: cs => do
      let (s, args) ← readLetters isRich true s (c :: cs) args
      read isRich s steps args
    | '+' :: c :: cs => do
      let (s, args) ← readLetters isRich false s (c :: cs) args
      read isRich s steps args
    | _ => .ok { s with operands := arg :: args }

end Start

namespace Act

/-- How deep the commands of a shell can be inside of each other. -/
def depthLimit : Nat := 1500

/-- Gives a variable a value that is exported. -/
def exportText (name text : String) : Act Unit := do
  let b := (← binding? name).getD {}
  setBinding name { b with value? := some (.text text), isExported := true }

/-- Makes the variables that a shell starts with. -/
def begin (program : String) : Act Unit := do
  let s : Shell ← get
  let isRich := s.dialect == .rich
  for (name, value) in s.process.environment do
    if isName name && name != "IFS" then exportText name value
  assignText "IFS" " \t\n"
  assignText "OPTIND" "1"
  assignText "PS4" "+ "
  assignText "PPID" (toString s.process.parent)
  if (← textOf? "PATH").isNone then
    assignText "PATH" "/usr/local/sbin:/usr/local/bin:/usr/sbin:/usr/bin:/sbin:/bin"
  let files := s.machine.files
  let here := files.pathOf s.process.directory
  let told := (s.process.value? "PWD").getD ""
  let path :=
    if Path.isAbsolute told && files.find? Files.root told == some s.process.directory then told else here
  modify fun s => { s with path }
  exportText "PWD" path
  if isRich then
    let level := (((s.process.value? "SHLVL").bind Numeral.decimal?).getD 0) + 1
    exportText "SHLVL" (toString level)
    assignText "BASH" ("/usr/bin/" ++ program)
    assignText "BASH_VERSION" "5.2.15(1)-release"
    assignText "OPTERR" "1"
    assignText "OSTYPE" "linux-gnu"
    assignText "HOSTTYPE" "x86_64"
    assignText "MACHTYPE" "x86_64-pc-linux-gnu"
    if (← textOf? "SHELL").isNone then assignText "SHELL" "/bin/bash"
    if (← textOf? "TERM").isNone then assignText "TERM" "dumb"
    for name in ["UID", "EUID"] do
      setBinding name { value? := some (.text "0"), isReadonly := true, isInteger := true }
    for option in ["braceexpand", "hashall"] do
      setOption option true
  else
    assignText "PS1" "# "
    assignText "PS2" "> "

/-- Complains about the arguments of a shell, and ends it. -/
def refuseStart (m : Start.Mistake) : Act Unit := do
  let name := (← get).name
  let isRich ← isRich
  let lead := if isRich then s!"{name}: " else s!"{name}: 0: "
  match m with
  | .nothing => quit 0
  | .noScript => do
    write 2 (lead ++ (if isRich then "-c: option requires an argument\n" else "-c requires an argument\n"))
    quit 2
  | .unknown option => do
    write 2 (lead ++ (if isRich then s!"{option}: invalid option\n" else s!"Illegal option {option}\n"))
    quit 2
  | .unknownName isShop option => do
    let kind := if isShop then "shell option" else "option"
    write 2 (lead ++
      (if isRich then s!"{option}: invalid {kind} name\n" else s!"Illegal option -o {option}\n"))
    quit 2

/-- Runs the script of a file. -/
def runFile (e : Engine) (path : String) : Act Unit := do
  let isRich ← isRich
  let shell := (← get).name
  let there ← isFileAt path
  let path' ←
    if there || !isRich || Octets.has path '/' then pure path
    else do pure ((← findProgram path).getD path)
  let s : Shell ← get
  match s.machine.files.read s.process.directory path' with
  | .error .isDirectory =>
    if isRich then
      write 2 s!"{path}: {path}: {Fault.isDirectory.text}\n"
      quit 126
  | .error f => do
    if isRich then
      write 2 s!"{shell}: {path}: {f.text}\n"
      quit 127
    else
      let reason := if f == .missing || f == .notDirectory then "No such file" else f.text
      write 2 s!"{shell}: 0: cannot open {path}: {reason}\n"
      quit 2
  | .ok text => do
    modify fun s => { s with name := path }
    if isRich && (text.toList.takeWhile (· != '\n')).contains '\x00' then
      write 2 s!"{path}: {path}: cannot execute binary file\n"
      quit 126
    runScript e false text

/-- Runs a shell with its arguments. -/
def start (e : Engine) (program : String) (args : List String) : Act Unit := do
  begin program
  match Start.read (← isRich) {} (args.length + 1) args with
  | .error m => refuseStart m
  | .ok o => do
    for (option, isOn) in o.changes do
      setOption option isOn
    if o.isScript then
      match o.operands with
      | [] => refuseStart .noScript
      | script :: operands => do
        setOption "command" true
        match operands with
        | [] => pure ()
        | name :: arguments => modify fun s => { s with name, arguments }
        runScript e true script
    else
      match o.operands, o.readsInput with
      | path :: arguments, false => do
        modify fun s => { s with arguments }
        runFile e path
      | operands, _ => do
        modify fun s => { s with arguments := operands }
        setOption "stdin" true
        match ← work "" (Work.drain 0) with
        | .ok (.ok text) => runScript e false text
        | _ => return

end Act

/-- Runs a shell as a process: how it ended. -/
def runShell (launch : Launcher) (dialect : Dialect) (program : String) (process : Process)
    (args : List String) (machine : Machine) : ExitStatus × Machine :=
  let e := Act.engine launch Act.depthLimit
  let s : Shell :=
    { process, dialect, name := args.headD program, mainProcess := process.number, machine }
  let whole : Act ExitStatus := do Act.conclude e (← Act.attempt (Act.start e program args.tail))
  match whole.run s with
  | (.ok status, s) => (status, s.machine)
  | (.error _, s) => (.code s.status, s.machine)

end Unnest.Host.Shell
