import Unnest.Host.Program

/-!
# Facts about the host

Programs that say something about the host, the user or the process, and programs that
do nothing but end.  The host has one user, who may do everything.
-/

namespace Unnest.Host.Utility

open Work

/-- A program that does nothing and ends with a code. -/
def nothing (code : Nat) : Utility := fun _ => return code

/-- A program that takes no operands and prints a line. -/
def stating (line : Work String) : Utility := fun args => do
  let g ← options {} args
  match g.operands with
  | [] => printLine (← line); return 0
  | operand :: _ => extraOperand operand

/-- Prints the path of the directory that it runs in. -/
def workingDirectory : Utility := fun args => do
  let g ← options { letters := "LP", words := [("logical", .nothing, "L"), ("physical", .nothing, "P")] } args
  if !g.operands.isEmpty then complain "ignoring non-option arguments"
  let p ← process
  let files ← files
  let told := (p.value? "PWD").getD ""
  let isTold := g.last? ["L", "P"] == some "L" && Path.isAbsolute told &&
    files.find? Files.root told == some p.directory
  printLine (if isTold then told else files.pathOf p.directory)
  return 0

/-- Says who the user is. -/
def identity : Utility := fun args => do
  let g ← options
    { letters := "agGnruzZ"
      words := [("group", .nothing, "g"), ("groups", .nothing, "G"), ("name", .nothing, "n"),
        ("real", .nothing, "r"), ("user", .nothing, "u"), ("zero", .nothing, "z")] } args
  let choices := ["u", "g", "G"].filter g.has
  match choices with
  | _ :: _ :: _ => fail 1 "cannot print \"only\" of more than one choice"
  | [] => do
    if g.has "n" || g.has "r" then fail 1 "cannot print only names or real IDs in default format"
    let others := g.operands.filter fun user => !(["root", "0"].contains user)
    if g.operands.isEmpty || others.length < g.operands.length then
      printLine "uid=0(root) gid=0(root) groups=0(root)"
    let well ← forEach others fun user => do
      complain s!"{Quoting.always user}: no such user"
      return false
    return code well
  | [_] => do
    let others := g.operands.filter fun user => !(["root", "0"].contains user)
    let well ← forEach others fun user => do
      complain s!"{Quoting.always user}: no such user"
      return false
    if well then print ((if g.has "n" then "root" else "0") ++ (if g.has "z" then "\x00" else "\n"))
    return code well

/-- What the system says about itself, by the letters that ask for it. -/
def systemFacts : List (String × String) :=
  [("s", "Linux"), ("n", "localhost"), ("r", "6.1.0"), ("v", "#1 SMP PREEMPT_DYNAMIC"), ("m", "x86_64"),
    ("o", "GNU/Linux")]

/-- Says what system this is. -/
def describeSystem : Utility := fun args => do
  let g ← options
    { letters := "asnrvmpio"
      words := [("all", .nothing, "a"), ("kernel-name", .nothing, "s"), ("nodename", .nothing, "n"),
        ("kernel-release", .nothing, "r"), ("kernel-version", .nothing, "v"), ("machine", .nothing, "m"),
        ("processor", .nothing, "p"), ("hardware-platform", .nothing, "i"), ("operating-system", .nothing, "o")] }
    args
  if let some operand := g.operands.head? then extraOperand operand
  let unknown := (["p", "i"].filter g.has).map fun _ => "unknown"
  let said := systemFacts.filter fun (letter, _) => g.has letter || g.has "a"
  let words := if g.options.isEmpty then ["Linux"] else said.map (·.2) ++ unknown
  printLine (" ".intercalate words)
  return 0

/-- Lets time pass. -/
def sleep : Utility := fun args => do
  let g ← options {} args
  if g.operands.isEmpty then missingOperand []
  let durations := g.operands.map Numeral.duration?
  let well ← forEach (g.operands.zip durations) fun (operand, d?) => do
    if d?.isNone then complain s!"invalid time interval {Quoting.always operand}"
    return d?.isSome
  if !well then misuse 1 "invalid time interval"
  setMachine ((← machine).wait ((durations.filterMap id).foldl (· + ·) 0))
  return 0

/-- Says which programs would be run by names. -/
def which : Utility := fun args => do
  let (options, names) := args.partition fun arg => arg.toList.head? == some '-' && arg != "-"
  if options.any (· != "-a") then return 2
  let well ← forEach names fun name => do
    match ← findProgram name with
    | .ok path => printLine path; return true
    | .error _ => return false
  return code (well && !names.isEmpty)

/-- Sends signals to processes. -/
def sendSignal : Utility := fun args => do
  let signalOf? (text : String) : Option Signal :=
    match Numeral.decimal? text with
    | some n => if n ≤ Signal.limit then some ⟨n⟩ else none
    | none =>
      let name := text.toUpper
      Signal.ofName? ((Octets.after? "SIG" name).getD name)
  let send (signal? : Option Signal) (targets : List String) : Work Nat := do
    match signal? with
    | none => fail 1 "unknown signal"
    | some signal => do
      if targets.isEmpty then fail 1 "not enough arguments"
      let well ← forEach targets fun target => do
        match Numeral.decimal? target with
        | none => complain s!"failed to parse argument: '{target}'"; return false
        | some n => do
          let m ← machine
          if n = 0 || m.nextProcess ≤ n then
            complain s!"sending signal to {target} failed: No such process"
            return false
          else
            setMachine (m.post n signal)
            return true
      return code well
  match args with
  | "-l" :: _ | "-L" :: _ | "--list" :: _ | "--table" :: _ => do
    printLine (" ".intercalate Signal.names)
    return 0
  | "-s" :: name :: targets | "--signal" :: name :: targets => send (signalOf? name) targets
  | "--" :: targets => send (some Signal.termination) targets
  | arg :: targets =>
    match arg.toList with
    | '-' :: c :: cs => send (signalOf? (String.ofList (c :: cs))) targets
    | _ => send (some Signal.termination) args
  | [] => send (some Signal.termination) []

/-- Says that the program does not run at a terminal. -/
def terminal : Utility := fun args => do
  let g ← options
    { letters := "s", words := [("silent", .nothing, "s"), ("quiet", .nothing, "s")], failure := 2 } args
  if let some operand := g.operands.head? then misuse 2 s!"extra operand {Quoting.always operand}"
  if !g.has "s" then printLine "not a tty"
  return 1

/-- Says how many programs can run at once. -/
def processors : Utility := fun args => do
  let g ← options { words := [("all", .nothing, "a"), ("ignore", .value, "i")] } args
  if let some operand := g.operands.head? then extraOperand operand
  printLine "1"
  return 0

/-- Says what the host is called. -/
def hostName : Utility := fun args => do
  match args.filter fun arg => arg.toList.head? != some '-' with
  | [] => printLine "localhost"; return 0
  | _ => fail 1 "you don't have permission to set the host name"

/-- Sees to it that files are on the disk, which they are. -/
def synchronize : Utility := fun args => do
  let g ← options
    { letters := "df", words := [("data", .nothing, "d"), ("file-system", .nothing, "f")] } args
  let well ← forEach g.operands fun name => do
    match ← ask fun fs here => fs.find here name with
    | .ok _ => return true
    | .error f => complain s!"error opening {Quoting.always name}: {f.text}"; return false
  return code well

/-- Says which users are at work; there are none. -/
def users : Utility := fun args => do
  let g ← options {} args
  match g.operands with
  | _ :: _ :: _ => extraOperand (g.operands.getD 1 "")
  | _ => return 0

end Unnest.Host.Utility
