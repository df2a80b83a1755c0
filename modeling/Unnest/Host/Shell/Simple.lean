import Unnest.Host.Shell.Subshell

/-!
# Simple commands

A simple command is made of values for variables, words and redirections.  The first
word names what is to be done: a function, a command of the shell itself, or a program.
Values in front of it are there for the command only, except that they stay where a
special command of the plain shell is run, and where there is no command at all.
-/

namespace Unnest.Host.Shell

namespace Act

/-! ## Assignments -/

/-- The elements of an array that words stand for, with their indices. -/
def elementsOf (e : Engine) (isKeyed : Bool) : (next : Nat) → List Word → Act (List (String × String))
  | _, [] => return []
  | next, w :: ws => do
    let indexed? : Option (String × Word × Bool) :=
      match w with
      | .text s :: ps =>
        match s.toList with
        | '[' :: cs =>
          let index := cs.takeWhile (· != ']')
          match cs.drop index.length with
          | ']' :: '=' :: value =>
            some (String.ofList index,
              if value.isEmpty then ps else .text (String.ofList value) :: ps, true)
          | _ =>
            match cs, ps with
            | [], p :: .text t :: ps =>
              match t.toList with
              | ']' :: '=' :: value =>
                some ("", p :: (if value.isEmpty then ps else .text (String.ofList value) :: ps), false)
              | _ => none
            | _, _ => none
        | _ => none
      | _ => none
    match indexed? with
    | some (index, value, true) => do
      let text ← expandValue e value
      let at_ ← if isKeyed then pure none else do pure (some (← arithmetic index).toNat)
      let rest ← elementsOf e isKeyed ((at_.getD next) + 1) ws
      return ((at_.map toString).getD index, text) :: rest
    | some (_, p :: value, false) => do
      -- the subscript is a part of its own
      let index ← expandText e [p]
      let text ← expandValue e value
      let at_ ← if isKeyed then pure none else do pure (some (← arithmetic index).toNat)
      let rest ← elementsOf e isKeyed ((at_.getD next) + 1) ws
      return ((at_.map toString).getD index, text) :: rest
    | _ => do
      let texts ← expandFields e w
      let here := (List.range texts.length).zip texts |>.map fun (i, s) => (toString (next + i), s)
      let rest ← elementsOf e isKeyed (next + texts.length) ws
      return here ++ rest

/-- Gives a variable the elements of an array. -/
def assignElements (e : Engine) (name : String) (isAppended : Bool) (ws : List Word) : Act Unit := do
  let target ← resolve name 8
  match (← binding? target).bind (·.value?) with
  | some (.keyed old) => do
    let elements ← elementsOf e true 0 ws
    let start := if isAppended then old else []
    assign target (.keyed (elements.foldl (fun es (k, v) =>
      if es.any (·.1 == k) then es.map fun x => if x.1 == k then (k, v) else x else es ++ [(k, v)]) start))
  | old? => do
    let start : List (Nat × String) :=
      match isAppended, old? with
      | true, some (.indexed es) => es
      | true, some (.text s) => [(0, s)]
      | _, _ => []
    let next := (start.getLast?.map (·.1 + 1)).getD 0
    let elements ← elementsOf e false next ws
    assign target (.indexed (elements.foldl (fun es (k, v) =>
      Value.insertAt ((Numeral.decimal? k).getD 0) v es) start))

/-- Makes an assignment. -/
def assignOne (e : Engine) (a : Assignment) : Act Unit := do
  match a.value with
  | [.elements ws] => assignElements e a.name a.isAppended ws
  | value => do
    let text ← expandValue e value
    let subscript? ← a.subscript.mapM (expandText e)
    let target ← resolve a.name 8
    let isInteger := ((← binding? target).map (·.isInteger)).getD false
    let old ←
      if !a.isAppended then pure ""
      else
        match subscript? with
        | some index => do pure ((← element arithmetic a.name index).getD "")
        | none => do pure ((← textOf? a.name).getD "")
    let text ←
      if isInteger then do
        let m ← if a.isAppended then arithmetic old else pure 0
        pure (toString (m + (← arithmetic text)))
      else pure (old ++ text)
    match subscript? with
    | some index => assignElement arithmetic a.name index text
    | none => assignText a.name text
    if ← isOn "xtrace" then write 2 s!"+ {a.name}={text}\n"

/-- Keeps what a variable was for the time of a command. -/
def keeping (names : List String) (a : Act Unit) : Act Unit := do
  let before ← names.mapM fun name => do return (name, ← binding? name)
  let result ← attempt a
  unhide before
  match result with
  | .ok () => return
  | .error leave => throw leave

/-- Gives the program or command that follows variables of its own. -/
def assignBefore (e : Engine) (as : List Assignment) : Act Unit :=
  as.forM fun a => do
    let isProtected := ((← binding? a.name).map (·.isReadonly)).getD false
    if isProtected && (← isRich) then
      complain s!"{a.name}: readonly variable"
    else
      assignOne e a
      let b := (← binding? a.name).getD {}
      setBinding a.name { b with isExported := true }

/-! ## Words -/

/-- The commands whose arguments can be assignments. -/
def declaring (isRich : Bool) : List String :=
  ["export", "readonly", "local"] ++ if isRich then ["declare", "typeset"] else []

/-- The words of a command, and arrays that are assigned behind it. -/
structure Expanded where
  words : List String := []
  arrays : List Assignment := []

/-- An argument that is an assignment. -/
def expandDeclaration (e : Engine) (a : Assignment) : Act Expanded := do
  let subscript ← a.subscript.mapM (expandText e)
  let left := a.name ++ subscript.elim "" (fun i => "[" ++ i ++ "]")
  match a.value with
  | [.elements _] => return { words := [left], arrays := [a] }
  | value => return { words := [left ++ (if a.isAppended then "+=" else "=") ++ (← expandValue e value)] }

/-- Expands the words of a command.  `seen` is what the command is called, as far as it
is known. -/
def expandWords (e : Engine) (seen? : Option String) : List Word → Act Expanded
  | [] => return {}
  | w :: ws => do
    let isRich ← isRich
    let isDeclaring := seen?.any (declaring isRich).contains
    let here : Expanded ←
      match isDeclaring, assignment? isRich w with
      | true, some a => expandDeclaration e a
      | _, _ => do pure { words := ← expandFields e w }
    let seen? :=
      match seen? with
      | some name => some name
      | none => here.words.find? fun word => !(["command", "builtin"].contains word)
    let rest ← expandWords e seen? ws
    return { words := here.words ++ rest.words, arrays := here.arrays ++ rest.arrays }

/-! ## Programs -/

/-- What a shell does with a program that cannot be started; `command` is what it was
to be started by, if it was not its name alone. -/
def startFault (command name : String) (f : Fault) : Act Nat := do
  let isRich ← isRich
  match f with
  | .missing | .notDirectory =>
    if isRich then
      let reason :=
        if Octets.has name '/' then f.text else if command = "" then "command not found" else "not found"
      complain s!"{command}{name}: {reason}"
      return if f == .notDirectory then 126 else 127
    else
      complain s!"{command}{name}: not found"
      return 127
  | f => do
    complain s!"{command}{name}: {f.text}"
    return 126

/-- Runs the program under a path, with its name and arguments: as a process of its
own, or in place of the shell. -/
def launchAt (e : Engine) (isInPlace : Bool) (path : String) (args : List String) :
    Act (Except Fault ExitStatus) := do
  let environment ← environment
  let s : Shell ← get
  let (process, m) := if isInPlace then (s.process, s.machine) else s.machine.fork s.process
  let last := if ← isRich then [("_", path)] else []
  let process := { process with environment := environment.filter (·.1 != "_") ++ last }
  let shell := if ← isRich then "/bin/bash" else "/bin/sh"
  let done :=
    match e.launch process path args m with
    | .error .format =>
      -- a file of commands
      e.launch process shell (shell :: path :: args.tail) m
    | done => done
  match done with
  | .ok (status, m) => do
    set { s with machine := m }
    return .ok status
  | .error f => return .error f

/-- Runs a program by its name: how it ended, or the number of the status if it could
not be started. -/
def launchNamed (e : Engine) (isInPlace : Bool) (command name : String) (args : List String) :
    Act (Except Nat ExitStatus) := do
  let isRich ← isRich
  let path? : Except Fault String ←
    if Octets.has name '/' then do
      let s : Shell ← get
      let isFolder := (s.machine.files.find? s.process.directory name).any s.machine.files.isDirectory
      pure (if isFolder then .error (if isRich then .isDirectory else .notAllowed) else .ok name)
    else do
      match ← findProgram name with
      | some path => pure (.ok path)
      | none => do
        let candidates := (← searchPath).map fun d => d ++ "/" ++ name
        let isThere ← candidates.anyM isFileAt
        pure (.error (if isThere && name != "" then .notAllowed else .missing))
  match path? with
  | .error f => return .error (← startFault command name f)
  | .ok path => do
    match ← launchAt e isInPlace path (name :: args) with
    | .ok status => return .ok status
    | .error f => return .error (← startFault command name f)

/-- Runs a program and looks at how it ended. -/
def runProgram (e : Engine) (isLast : Bool) (name : String) (args : List String) : Act Unit := do
  match ← launchNamed e false "" name args with
  | .error status => setStatus status
  | .ok ended => do
    if isLast then throw (.replaced ended)
    match ended with
    | .signal g => if !(← isRich) && g.number != 2 && g.number != 13 then write 2 (g.description ++ "\n")
    | .code _ => pure ()
    setStatus ended.number

/-! ## Commands of the shell -/

/-- Asks a condition about files and about the shell. -/
def askCondition (name : String) : Builtin := fun _ args => do
  let words? := if name = "[" then (if args.getLast? == some "]" then some args.dropLast else none) else some args
  match words? with
  | none => byUtility name (Utility.bracket (← printer)) args
  | some words => do
    let s : Shell ← get
    let asker : Asker :=
      { printer := ← printer, files := s.machine.files, process := s.process
        isSet := fun x => (s.bindings.lookup x).any (·.value?.isSome)
        isOn := s.options.contains }
    match Condition.answer asker words with
    | .ok value => return if value then 0 else 1
    | .error text => do
      complainAs name text
      return 2

/-- The commands that every shell does itself. -/
def plainBuiltins : List (String × Builtin) :=
  [(":", fun _ _ => return 0), ("true", fun _ _ => return 0), ("false", fun _ _ => return 1),
    ("[", askCondition "["), ("test", askCondition "test"),
    ("echo", fun _ args => do byUtility "echo" (Utility.echo (← printer)) args),
    ("printf", printFormatted), ("cd", changeDirectory), ("pwd", printDirectory), ("exit", exitShell),
    ("return", returnStatus), ("break", leaveLoops "break" .breakLoop),
    ("continue", leaveLoops "continue" .nextRound), ("eval", evaluateArguments), (".", readScript "."),
    ("export", exportVariables), ("readonly", protectVariables), ("unset", unsetAll),
    ("local", localVariables), ("set", setAll), ("shift", shift), ("read", readLineInto),
    ("getopts", getOptions), ("trap", setTraps), ("kill", kill), ("wait", waitJobs),
    ("alias", setAliases), ("unalias", unsetAliases), ("hash", hash), ("umask", changeMask),
    ("ulimit", limits), ("times", times), ("jobs", fun _ _ => return 0),
    ("fg", fun _ _ => refuse "fg" 1 "no job control"), ("bg", fun _ _ => refuse "bg" 1 "no job control")]

/-- The commands that only the rich shell does itself. -/
def richBuiltins : List (String × Builtin) :=
  [("source", readScript "source"), ("declare", declareAll "declare"), ("typeset", declareAll "typeset"),
    ("let", computeAll), ("shopt", shop), ("mapfile", readLines), ("readarray", readLines),
    ("pushd", pushDirectory), ("popd", popDirectory), ("dirs", fun _ _ => showDirectories "dirs"),
    ("caller", fun _ _ => return 1), ("disown", fun _ _ => return 0), ("enable", fun _ _ => return 0),
    ("history", fun _ _ => return 0), ("complete", fun _ _ => return 0), ("bind", fun _ _ => return 0),
    ("compgen", fun _ _ => return 1), ("help", fun _ _ => return 0),
    ("logout", fun _ _ => refuse "logout" 1 "not login shell: use \x60exit'"),
    ("suspend", fun _ _ => refuse "suspend" 1 "cannot suspend: no job control")]

/-- The commands of a shell that run others. -/
def runningNames (isRich : Bool) : List String :=
  ["command", "exec", "type"] ++ if isRich then ["builtin"] else ["chdir"]

/-- The names of all commands of a shell. -/
def builtinNames (isRich : Bool) : List String :=
  runningNames isRich ++ plainBuiltins.map (·.1) ++ if isRich then richBuiltins.map (·.1) else []

/-- A command of the shell by its name. -/
def builtin? (isRich : Bool) (name : String) : Option Builtin :=
  if name = "type" then some (typeNames (builtinNames isRich))
  else if name = "chdir" && !isRich then some changeDirectory
  else
    match plainBuiltins.lookup name with
    | some b => some b
    | none => if isRich then richBuiltins.lookup name else none

/-- Does a command of the shell.  Where a special one fails, the plain shell ends. -/
def runBuiltin (e : Engine) (b : Builtin) (isSpecial : Bool) (args : List String) : Act Unit := do
  match ← attempt (b e args) with
  | .ok status => setStatus status
  | .error .failed => if isSpecial && !(← isRich) then throw .quit
  | .error leave => throw leave

/-- Does a command of the plain shell that is not special: faults do not end the shell. -/
def runOrdinary (e : Engine) (b : Builtin) (args : List String) : Act Unit := do
  match ← attempt (runBuiltin e b false args) with
  | .ok () => return
  | .error .quit => if ← isRich then throw .quit
  | .error leave => throw leave

/-! ## Functions -/

/-- Runs a function. -/
def callFunction (e : Engine) (name : String) (body : Command) (args : List String) : Act Unit := do
  let before := (← get).toMemory
  modify fun s =>
    { s with
      arguments := args, hidden := [] :: s.hidden, callers := name :: s.callers, loops := 0 }
  let result ← attempt (e.execute body)
  let frame := (← get).hidden.headD []
  modify fun s =>
    { s with
      arguments := before.arguments, hidden := before.hidden, callers := before.callers
      loops := before.loops, line := before.line }
  unhide frame
  match result with
  | .ok () | .error .leaveFunction => return
  | .error leave => throw leave

/-! ## Running -/

/-- Runs a command by its name, and not a function; `isOpen` says that faults of special
commands do not end the shell. -/
def runNamed (e : Engine) (isLast isOpen : Bool) (name : String) (args : List String) : Act Unit := do
  let isRich ← isRich
  match builtin? isRich name with
  | some b =>
    if specialNames.contains name || name = "local" then runBuiltin e b (!isOpen) args
    else runOrdinary e b args
  | none => runProgram e isLast name args

/-- Runs a program in place of the shell. -/
def replaceShell (e : Engine) (args : List String) : Act Unit := do
  let args ←
    if ← isRich then do
      let (options, args) ← letters "exec" "cla:" args
      if options.any (·.1 == 'c') then
        modify fun s => { s with bindings := s.bindings.map fun (n, b) => (n, { b with isExported := false }) }
      pure args
    else pure (if args.head? == some "--" then args.tail else args)
  match args with
  | [] => setStatus 0
  | name :: args => do
    match ← launchNamed e true "exec: " name args with
    | .ok ended => throw (.replaced ended)
    | .error status => quit status

/-- Runs a command that is named behind another one, which skips functions. -/
def runCommandWord (e : Engine) (isLast : Bool) : (steps : Nat) → (name : String) → List String → Act Unit
  | 0, _, _ => return
  | steps + 1, name, args => do
    let isRich ← isRich
    match name with
    | "command" => do
      let (options, rest) ← letters "command" "pvV" args
      let has (c : Char) : Bool := options.any (·.1 == c)
      if has 'V' then setStatus (← showMeanings "command" (builtinNames isRich) rest)
      else if has 'v' then setStatus (← showCommands (builtinNames isRich) rest)
      else
        match rest with
        | [] => setStatus 0
        | name :: args => runCommandWord e isLast steps name args
    | "builtin" =>
      if !isRich then runNamed e isLast true name args
      else
        match args with
        | [] => setStatus 0
        | name :: args => do
          if (builtinNames isRich).contains name then runCommandWord e isLast steps name args
          else
            complainAs "builtin" s!"{name}: not a shell builtin"
            setStatus 1
    | "exec" => replaceShell e args
    | name => runNamed e isLast true name args

/-- Runs a command of one's own: one that skips functions, a function, or what a name
stands for. -/
def runWords (e : Engine) (isLast : Bool) (name : String) (args : List String) : Act Unit := do
  let isRich ← isRich
  let isSpecial := specialNames.contains name
  let functions := (← get).functions
  let function? := if isSpecial && !isRich then none else functions.lookup name
  match function? with
  | some body => callFunction e name body args
  | none => do
    if (runningNames isRich).contains name && name != "type" && name != "chdir" then
      match ← attempt (runCommandWord e isLast 16 name args) with
      | .ok () => return
      | .error .failed => if name = "exec" && !isRich then throw .quit
      | .error leave => throw leave
    else runNamed e isLast false name args

/-- Shows a command before it is run. -/
def trace (words : List String) : Act Unit := do
  if ← isOn "xtrace" then
    let isRich ← isRich
    let isPlain (s : String) : Bool := s != "" && s.all fun c => c.isAlphanum || "%+,-./:=@_^".toList.contains c
    let shown := words.map fun w => if !isRich || isPlain w then w else requoted w
    let lead ← match ← textOf? "PS4" with
      | some lead => pure lead
      | none => pure "+ "
    write 2 (lead ++ " ".intercalate shown ++ "\n")

/-- Runs a simple command. -/
def runSimple (e : Engine) (isLast : Bool) (line : Nat) (as : List Assignment) (ws : List Word)
    (rs : List Redirection) : Act Unit := do
  modify fun s => { s with line, captured := 0 }
  let isRich ← isRich
  let x ← expandWords e none ws
  match x.words with
  | [] =>
    redirected e rs (do
      as.forM (assignOne e)
      setStatus (← get).captured) (return)
  | name :: args => do
    let isSpecial := specialNames.contains name && !isRich
    if name = "exec" && ((← get).functions.lookup name).isNone then
      -- these redirections stay
      if ← redirectAll e rs then
        assignBefore e as
        trace x.words
        runWords e isLast name args
      else
        setStatus (if isRich then 1 else 2)
        if !isRich then throw .quit
    else
      let refused : Act Unit := do
        if isSpecial then throw .quit
      let run : Act Unit := do
        runWords e (isLast && rs.isEmpty) name args
        if (← get).status = 0 then x.arrays.forM (assignOne e)
      if as.isEmpty then redirected e rs (do trace x.words; run) refused
      else
        redirected e rs (do
          if isSpecial then
            as.forM (assignOne e)
            trace x.words
            run
          else
            keeping (as.map (·.name)) do
              assignBefore e as
              trace x.words
              run) refused
  modify fun s => { s with statuses := [s.status] }

end Act

end Unnest.Host.Shell
