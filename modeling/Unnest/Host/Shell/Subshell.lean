import Unnest.Host.Shell.Builtin.Control

/-!
# Shells beside a shell

Parts of a script run in a shell of their own: what stands in parentheses, the parts of
a pipeline, scripts inside of words, and commands that are left to go on.  Such a shell
starts with what the one around it knows, and keeps what it learns to itself; only what
it did to the machine stays.

A command that is left to go on is put aside.  It is run when somebody waits for it,
when time has passed, and at the latest when its shell ends, and each time just as far
as the time has come.
-/

namespace Unnest.Host.Shell

namespace Act

/-! ## The end of a shell -/

/-- Runs what is to be done at the end of the shell: how the shell ends. -/
def atExit (e : Engine) : Act ExitStatus := do
  let status := (← get).status
  match (← get).traps.lookup "EXIT" with
  | none | some "" => return .code status
  | some action => do
    modify fun s => { s with traps := s.traps.filter (·.1 != "EXIT") }
    match ← attempt (e.evaluate action) with
    | .error (.replaced ended) => return ended
    | .error (.signal g) => return .signal g
    | .error .quit => return .code (← get).status
    | _ => return .code status

/-- Goes on with commands that were put aside; `isLast` says that nothing of them comes
later. -/
def runJob (e : Engine) (process : Nat) (w : Waiting) (conclude : Except Leave Unit → Act ExitStatus) :
    Act ExitStatus := do
  let machine ← takeMachine
  let before : Shell ← get
  let now := machine.clock
  set { toMemory := w.memory, machine := { machine with clock := w.clock } : Shell }
  let status ← conclude (← attempt (e.execute w.command))
  let machine ← takeMachine
  set { before with
    machine := { machine with clock := max now machine.clock }
    waiting := before.waiting.filter (·.1 != process)
    jobs := before.jobs.map fun (j : Job) => if j.process = process then { j with status? := some status } else j }
  return status

/-- Runs the commands that were put aside as far as the time has come.  What would go on
for longer is kept for later, or given up if the shell ends. -/
def settleJobs (e : Engine) (isLast : Bool) (conclude : Except Leave Unit → Act ExitStatus) : Act Unit := do
  for (process, w) in (← get).waiting do
    let before : Shell ← get
    let m := before.machine
    set { before with machine := { m with deadline? := some m.clock } }
    let _ ← runJob e process w conclude
    if (← get).machine.isStalled && !isLast then set before
    else
      modify fun s =>
        { s with machine := { s.machine with clock := m.clock, deadline? := m.deadline?, isStalled := m.isStalled } }

/-- Ends a shell that was left in some way: how it ended.  Shells inside of each other
end at most `depth` deep. -/
def concludeWithin (e : Engine) : (depth : Nat) → Except Leave Unit → Act ExitStatus
  | 0, _ => return .code (← get).status
  | depth + 1, left => do
    let ended ←
      match left with
      | .error (.replaced ended) => pure ended
      | .error .stall => return .code (← get).status
      | .error (.signal g) => do
        if ← isRich then
          let _ ← atExit e
        pure (.signal g)
      | _ => atExit e
    settleJobs e true (concludeWithin e depth)
    return ended

/-- Ends a shell that was left in some way: how it ended. -/
def conclude (e : Engine) (left : Except Leave Unit) : Act ExitStatus := concludeWithin e 16 left

/-- Does something in a shell of its own: how that ended. -/
def beside (e : Engine) (body : Act Unit) : Act ExitStatus := do
  let machine ← takeMachine
  let before : Shell ← get
  let (process, machine) := machine.fork before.process
  let isRich := before.dialect == .rich
  set { before with
    machine, process, depth := before.depth + 1, traps := before.traps.filter (·.2 == "")
    loops := if isRich then 0 else before.loops
    jobs := [], waiting := [] }
  let status ← conclude e (← attempt body)
  let machine ← takeMachine
  set { before with machine }
  return status

/-! ## After a command -/

/-- Does what a shell does about the signals that it got. -/
def handleSignals (e : Engine) : List Signal → Act Unit
  | [] => return
  | g :: gs => do
    let s ← get
    let event := signalName (s.dialect == .rich) g.number
    if s.process.ignored.contains g && g.number != 9 then handleSignals e gs
    else
      match s.traps.lookup event with
      | some action => do
        e.evaluate action
        setStatus s.status
        handleSignals e gs
      | none => if g.isFatal then throw (.signal g) else handleSignals e gs

/-- Looks at what has happened to the shell in the meantime. -/
def lookAround (e : Engine) : Act Unit := do
  if (← get).machine.isStalled then throw .stall
  if !(← get).waiting.isEmpty && (← get).settled < (← get).machine.clock then
    settleJobs e false (conclude e)
    modify fun s => { s with settled := s.machine.clock }
  let process := (← get).process.number
  if (← get).machine.posted.any (·.1 == process) then
    let mine := ((← get).machine.posted.filter (·.1 == process)).map (·.2)
    modify fun s =>
      { s with machine := { s.machine with posted := s.machine.posted.filter (·.1 != process) } }
    handleSignals e mine

/-- Ends the shell if a command has failed and nobody waits for how it ends. -/
def checkFailure (e : Engine) : Act Unit := do
  let status := (← get).status
  if status != 0 && !(← get).isTested then
    match (← get).traps.lookup "ERR" with
    | some action => do
      modify fun s => { s with traps := s.traps.filter (·.1 != "ERR") }
      e.evaluate action
      modify fun s => { s with traps := s.traps ++ [("ERR", action)], status }
    | none => pure ()
    if ← isOn "errexit" then throw .quit

/-- Does something whose failure somebody waits for. -/
def tested (a : Act Unit) : Act Unit := do
  restoring (fun before after => { after with isTested := before.isTested }) do
    modify fun s => { s with isTested := true }
    a

/-! ## Scripts -/

/-- A fault at reading a script in the words of the shell. -/
def sourceFault (isRich : Bool) : SourceFault → String
  | .unexpected token expected? =>
    if isRich then
      if token = "end of file" then "syntax error: unexpected end of file"
      else
        let token := String.ofList (token.toList.filter (· != '"'))
        s!"syntax error near unexpected token \x60{token}'"
    else
      "Syntax error: " ++ token ++ " unexpected" ++
        (expected?.elim "" fun word => " (expecting \"" ++ word ++ "\")")
  | .openQuote quote =>
    if isRich then s!"unexpected EOF while looking for matching \x60{quote}'"
    else if quote = '\x60' then "Syntax error: EOF in backquote substitution"
    else "Syntax error: Unterminated quoted string"
  | .openBrace =>
    if isRich then "unexpected EOF while looking for matching \x60\x7d'" else "Syntax error: Missing '\x7d'"
  | .openExpression =>
    if isRich then "unexpected EOF while looking for matching \x60)'" else "Syntax error: Missing '))'"
  | .badLoopName name =>
    if isRich then s!"\x60{name}': not a valid identifier" else "Syntax error: Bad for loop variable"
  | .badFunctionName name =>
    if isRich then s!"\x60{name}': not a valid identifier" else "Syntax error: Bad function name"
  | .tooDeep => "Syntax error: too deep"

/-- Complains about a script that cannot be read. -/
def refuseSource (f : SourceFault) (line : Nat) : Act Unit := do
  modify fun s => { s with line }
  if ← isRich then
    let name := (← get).name
    let f := sourceFault true f
    write 2 s!"{name}: -c: line {line}: {f}\n"
    setStatus 2
  else
    complain (sourceFault false f)
    quit 2

/-- Runs the commands that are left of a script, one after the other. -/
def runSource (e : Engine) (isLast : Bool) : (steps : Nat) → Source → Act Unit
  | 0, _ => return
  | steps + 1, source => do
    let s := (← get).toMemory
    let aliases := if s.dialect == .plain || s.options.contains "expand_aliases" then s.aliases else []
    match nextCommand.run { source with aliases, documents := s.documents } with
    | (.error f, source) => refuseSource f source.line
    | (.ok none, _) => return
    | (.ok (some c), source) => do
      modify fun s => { s with documents := source.documents }
      let isAtEnd :=
        match source.ahead? with
        | some (.finish, _, _) => true
        | _ => source.rest.isEmpty
      if !s.options.contains "noexec" then
        if isLast && isAtEnd then e.finish c else e.execute c
      runSource e isLast steps source

/-- Runs a script; `isLast` says that the shell ends behind it. -/
def runScript (e : Engine) (isLast : Bool) (script : String) : Act Unit := do
  let line := (← get).line
  let dialect := (← get).dialect
  runSource e isLast (script.length + 1) { dialect, rest := script.toList, line }

/-! ## Scripts inside of words -/

/-- The path of a file that a script only reads, if it does nothing else. -/
def readOnly? (script : String) : Option Word :=
  match nextCommand.run { dialect := .rich, rest := script.toList } with
  | (.ok (some (.simple _ [] [] [r])), source) =>
    if r.kind == .input && (r.descriptor?.getD 0) = 0 && source.rest.all Octets.isSpace then some r.target
    else none
  | _ => none

/-- Takes all out of a pipe. -/
def emptyPipe (reader : Nat) : Act String := do
  let m := (← get).machine
  match m.rest reader with
  | .ok text => do
    modify fun s => { s with machine := s.machine.consume reader text.length }
    return text
  | .error _ => return ""

/-- What a script prints, without the ends of its last lines. -/
def capture (e : Engine) (expand : Word → Act String) (script : String) : Act String := do
  let isRich ← isRich
  let text ←
    match if isRich then readOnly? script else none with
    | some path => do
      let path ← expand path
      let s ← get
      match s.machine.files.read s.process.directory path with
      | .ok text => do
        modify fun s => { s with captured := 0, status := 0 }
        pure text
      | .error f => do
        complain s!"{path}: {f.text}"
        modify fun s => { s with captured := 1, status := 1 }
        pure ""
    | none => do
      let (reader, writer, machine) := (← takeMachine).makePipe
      modify fun s => { s with machine }
      let status ← beside e do
        setDescriptor 1 (some writer)
        if isRich then setOption "errexit" false
        else modify fun s => { s with isTested := false }
        runScript e true script
      modify fun s =>
        { s with captured := status.number, status := if isRich then status.number else s.status }
      emptyPipe reader
  let cs := (text.toList.filter (· != '\x00')).reverse.dropWhile (· == '\n')
  return String.ofList cs.reverse

/-- Puts a command aside that goes on beside the shell: its process. -/
def putAside (command : Command) (change : Process → Process) : Act Nat := do
  let machine ← takeMachine
  let s : Shell ← get
  let (process, machine) := machine.fork s.process
  let memory :=
    { s.toMemory with
      process := change process, depth := s.depth + 1, traps := s.traps.filter (·.2 == ""), loops := 0
      isTested := false }
  let w : Waiting := { memory, command, clock := machine.clock }
  set { s with machine, waiting := s.waiting ++ [(process.number, w)] }
  return process.number

/-- Runs a script whose output is read, or whose input is written, through a descriptor:
the number of it. -/
def attach (e : Engine) (script : String) (isInput : Bool) : Act Nat := do
  let (reader, writer, machine) := (← takeMachine).makePipe
  modify fun s => { s with machine }
  let p := (← get).process
  let number := ((List.range 54).map (63 - ·)).find? (fun n => (p.opening? n).isNone) |>.getD 63
  if isInput then
    let _ ← beside e do
      setDescriptor 1 (some writer)
      runScript e true script
    setDescriptor number (some reader)
  else
    let _ ← putAside (.simple 1 [] [[.text "eval"], [.quoted script]] []) fun p =>
      p.setDescriptor 0 (some reader)
    setDescriptor number (some writer)
  return number

/-- How a command beside the shell ended, which is waited for. -/
def await (e : Engine) (process : Nat) : Act (Option ExitStatus) := do
  match (← get).waiting.lookup process with
  | some w => do
    let _ ← runJob e process w (conclude e)
  | none => pure ()
  let found := (← get).jobs.find? fun j => j.process = process
  if !(← isRich) then modify fun s => { s with jobs := s.jobs.filter fun j => j.process != process }
  return found.bind (·.status?)

/-- Leaves a command to go on beside the shell. -/
def leaveBehind (command : Command) : Act Unit := do
  let s : Shell ← get
  let silent := s.machine.openPath s.process "/dev/null" .read
  let process ← putAside command fun p =>
    match silent with
    | .ok (o, _) => p.setDescriptor 0 (some o)
    | .error _ => p
  match silent with
  | .ok (_, m) =>
    modify fun t => { t with machine := { t.machine with openings := m.openings } }
  | .error _ => pure ()
  modify fun s =>
    { s with jobs := s.jobs ++ [{ process }], lastJob? := some process, status := 0 }

end Act

end Unnest.Host.Shell
