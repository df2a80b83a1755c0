import Unnest.Host.Program

/-!
# Programs that run another

These programs change something about themselves, such as their environment, and then
run another program in their place.  Where that cannot be done they end with a code
that the other program would hardly use.
-/

namespace Unnest.Host.Utility

open Work

/-- The code with which these programs end where they fail themselves. -/
def wrapperFailure : Nat := 125

/-! ## env -/

/-- Words that are written in one argument: quotes hold words together, and a dollar
sign in front of braces stands for a variable. -/
structure Splitter where
  quote? : Option Char := none
  words : List String := []
  word? : Option String := none

namespace Splitter

def push (s : Splitter) (text : String) : Splitter := { s with word? := some (s.word?.getD "" ++ text) }

/-- Ends a word. -/
def close (s : Splitter) : Splitter :=
  match s.word? with
  | some word => { s with words := s.words ++ [word], word? := none }
  | none => s

/-- Reads the words of a text; `none` if there is something wrong with it. -/
def read (value : String → String) (s : Splitter) : (steps : Nat) → List Char → Option (List String)
  | 0, _ => none
  | _ + 1, [] => if s.quote?.isSome then none else some s.close.words
  | steps + 1, c :: cs =>
    match s.quote?, c, cs with
    | some '\x27', '\x27', cs => read value { s with quote? := none } steps cs
    | some '\x27', '\\', '\x27' :: cs => read value (s.push "'") steps cs
    | some '\x27', '\\', '\\' :: cs => read value (s.push "\\") steps cs
    | some '\x27', c, cs => read value (s.push c.toString) steps cs
    | some '"', '"', cs => read value { s with quote? := none } steps cs
    | none, '\x27', cs => read value { s.push "" with quote? := some '\x27' } steps cs
    | none, '"', cs => read value { s.push "" with quote? := some '"' } steps cs
    | none, '#', cs =>
      if s.word?.isNone then some s.words else read value (s.push "#") steps cs
    | quote?, '\\', e :: cs =>
      match e with
      | 'c' => if quote?.isSome then none else some s.close.words
      | '_' => if quote?.isSome then read value (s.push " ") steps cs else read value s.close steps cs
      | 'f' => read value (s.push "\x0c") steps cs
      | 'n' => read value (s.push "\n") steps cs
      | 'r' => read value (s.push "\r") steps cs
      | 't' => read value (s.push "\t") steps cs
      | 'v' => read value (s.push "\x0b") steps cs
      | '"' | '#' | '$' | '\x27' | '\\' => read value (s.push e.toString) steps cs
      | _ => none
    | _, '\\', [] => none
    | _, '$', '\x7b' :: cs =>
      let name := cs.takeWhile fun c => c.isAlphanum || c = '_'
      match cs.drop name.length with
      | '\x7d' :: rest => read value (s.push (value (String.ofList name))) steps rest
      | _ => none
    | _, '$', _ => none
    | some _, c, cs => read value (s.push c.toString) steps cs
    | none, c, cs =>
      if Octets.isSpace c then read value s.close steps cs else read value (s.push c.toString) steps cs

end Splitter

/-- Replaces the options that hold several words by their words. -/
def splitWords (value : String → String) : (steps : Nat) → List String → Option (List String)
  | 0, args => some args
  | _, [] => some []
  | steps + 1, arg :: args =>
    let expand (text : String) (args : List String) : Option (List String) := do
      splitWords value steps ((← Splitter.read value {} (text.length + 1) text.toList) ++ args)
    match Octets.after? "-S" arg, Octets.after? "--split-string=" arg, Octets.after? "-vS" arg, args with
    | some "", _, _, text :: args => expand text args
    | some "", _, _, [] => some [arg]
    | some text, _, _, args => expand text args
    | _, some text, _, args => expand text args
    | _, _, some "", text :: args => expand text args
    | _, _, some text, args => expand text args
    | _, _, _, args =>
      if arg = "--split-string" then
        match args with
        | text :: args => expand text args
        | [] => some [arg]
      else if ["-u", "-C", "--unset", "--chdir"].contains arg then
        match args with
        | v :: args => (splitWords value steps args).map fun rest => arg :: v :: rest
        | [] => some [arg]
      else if arg.toList.head? == some '-' && arg != "--" && arg != "-" then
        (splitWords value steps args).map (arg :: ·)
      else some (arg :: args)

/-- Changes the environment, and runs a program in it or shows it. -/
def environment (launch : Launcher) : Utility := fun args => do
  let p ← process
  match splitWords (fun name => (p.value? name).getD "") 64 args with
  | none => fail wrapperFailure "invalid string in -S"
  | some args => do
    let g ← options
      { letters := "C:iS:u:v0"
        words := [("ignore-environment", .nothing, "i"), ("null", .nothing, "0"), ("unset", .value, "u"),
          ("chdir", .value, "C"), ("debug", .nothing, "v"), ("split-string", .value, "S"),
          ("block-signal", .attached, ""), ("default-signal", .attached, "d"),
          ("ignore-signal", .attached, "I"), ("list-signal-handling", .nothing, "")]
        failure := wrapperFailure, isOrdered := true } args
    let (isBare, operands) :=
      match g.operands with
      | "-" :: operands => (true, operands)
      | operands => (g.has "i", operands)
    if isBare then modify fun t => { t with process := { t.process with environment := [] } }
    else
      for name in g.values "u" do
        if name = "" || Octets.has name '=' then
          fail wrapperFailure s!"cannot unset {Quoting.always name}: {Fault.invalid.text}"
        modify fun t => { t with process := t.process.unsetVariable name }
    let settings := operands.takeWhile (Octets.has · '=')
    for setting in settings do
      let (name, value?) := Octets.cut '=' setting
      modify fun t => { t with process := t.process.setVariable name (value?.getD "") }
    for list in g.values "I" do
      let named := (Octets.words (· == ',') list).filterMap fun s =>
        Signal.ofName? ((Octets.after? "SIG" s).getD s)
      modify fun t => { t with process := { t.process with ignored := t.process.ignored ++ named } }
    match operands.drop settings.length with
    | [] => do
      if g.has "C" then misuse wrapperFailure "must specify command with --chdir (-C)"
      let ending := if g.has "0" then "\x00" else "\n"
      for (name, value) in (← process).environment do
        print (name ++ "=" ++ value ++ ending)
      return 0
    | name :: args => do
      if g.has "0" then misuse wrapperFailure "cannot specify --null (-0) with command"
      if let some directory := g.value? "C" then
        match ← ask fun fs here => fs.findDirectory here directory with
        | .ok i => modify fun t => { t with process := { t.process with directory := i } }
        | .error f => fail wrapperFailure s!"cannot change directory to {Quoting.always directory}: {f.text}"
      replace launch name args

/-- Shows variables of the environment. -/
def showEnvironment : Utility := fun args => do
  let g ← options { letters := "0", words := [("null", .nothing, "0")], failure := 2, isOrdered := true } args
  let ending := if g.has "0" then "\x00" else "\n"
  let p ← process
  if g.operands.isEmpty then
    for (name, value) in p.environment do
      print (name ++ "=" ++ value ++ ending)
    return 0
  let well ← forEach g.operands fun name => do
    match p.value? name with
    | some value => print (value ++ ending); return true
    | none => return false
  return code well

/-! ## Standing and time -/

/-- Takes the old form of the option for a priority apart. -/
def priorityArguments : List String → List String
  | [] => []
  | arg :: args =>
    match arg.toList with
    | '-' :: '-' :: cs =>
      if !cs.isEmpty && cs.all Char.isDigit then "-n" :: String.ofList ('-' :: cs) :: priorityArguments args
      else arg :: args
    | '-' :: cs =>
      if !cs.isEmpty && cs.all Char.isDigit then "-n" :: String.ofList cs :: priorityArguments args
      else if arg = "-n" then
        match args with
        | v :: args => arg :: v :: priorityArguments args
        | [] => [arg]
      else arg :: args
    | _ => arg :: args

/-- Runs a program at another priority, which changes nothing else about it. -/
def lowerPriority (launch : Launcher) : Utility := fun args => do
  let g ← options
    { letters := "n:", words := [("adjustment", .value, "n")], failure := wrapperFailure, isOrdered := true }
    (priorityArguments args)
  if let some n := g.value? "n" then
    if (Numeral.integer? n).isNone then
      fail wrapperFailure s!"invalid adjustment {Quoting.always n}"
  match g.operands with
  | [] => do
    if g.has "n" then misuse wrapperFailure "a command must be given with an adjustment"
    printLine "0"
    return 0
  | name :: args => replace launch name args

/-- Runs a program that goes on when its terminal is gone. -/
def ignoreHangups (launch : Launcher) : Utility := fun args => do
  let g ← options { failure := wrapperFailure, isOrdered := true } args
  match g.operands with
  | [] => misuse wrapperFailure "missing operand"
  | name :: args => do
    modify fun t => { t with process := { t.process with ignored := t.process.ignored ++ [⟨1⟩] } }
    replace launch name args

/-- Runs a program in a session of its own; `-f` leaves it behind. -/
def openSession (launch : Launcher) : Utility := fun args => do
  let g ← options
    { letters := "cfw"
      words := [("ctty", .nothing, "c"), ("fork", .nothing, "f"), ("wait", .nothing, "w")]
      isOrdered := true } args
  match g.operands with
  | [] => misuse 1 "no command specified"
  | name :: args => do
    if g.has "f" && !g.has "w" then
      let _ ← start launch name args
      return 0
    match ← runAs launch (← process) name args with
    | .ok status => throw status
    | .error f => fail (startCode f) s!"failed to execute {name}: {f.text}"

/-- Runs a program whose output is held back in another way. -/
def changeBuffers (launch : Launcher) : Utility := fun args => do
  let g ← options
    { letters := "i:o:e:"
      words := [("input", .value, "i"), ("output", .value, "o"), ("error", .value, "e")]
      failure := wrapperFailure, isOrdered := true } args
  for (option, value) in g.options do
    if value = "L" && option = "i" then misuse wrapperFailure "line buffering stdin is meaningless"
    else if value != "L" && (Numeral.size? value).isNone then
      fail wrapperFailure s!"invalid mode {Quoting.always value}"
  match g.operands with
  | [] => misuse wrapperFailure "missing operand"
  | name :: args => do
    if g.options.isEmpty then misuse wrapperFailure "you must specify a buffering mode option"
    replace launch name args

/-- A signal by its name or number. -/
def signalOf? (text : String) : Option Signal :=
  match Numeral.decimal? text with
  | some n => if n ≤ Signal.limit then some ⟨n⟩ else none
  | none =>
    let name := text.toUpper
    let name := (Octets.after? "SIG" name).getD name
    if name = "EXIT" then some ⟨0⟩
    else if name = "RTMIN" then some ⟨34⟩
    else if name = "RTMAX" then some ⟨64⟩
    else Signal.ofName? name

/-- Runs a program for so long at most. -/
def limitTime (launch : Launcher) : Utility := fun args => do
  let g ← options
    { letters := "k:s:v"
      words := [("foreground", .nothing, "f"), ("kill-after", .value, "k"), ("preserve-status", .nothing, "p"),
        ("signal", .value, "s"), ("verbose", .nothing, "v")]
      failure := wrapperFailure, isOrdered := true } args
  let duration (text : String) : Work Nat := do
    match Numeral.duration? text with
    | some d => return d
    | none => misuse wrapperFailure s!"invalid time interval {Quoting.always text}"
  if let some k := g.value? "k" then
    let _ ← duration k
  let signal : Signal ←
    match g.value? "s" with
    | none => pure Signal.termination
    | some text =>
      match signalOf? text with
      | some s => pure s
      | none => misuse wrapperFailure s!"{Quoting.always text}: invalid signal"
  match g.operands with
  | limit :: name :: args => do
    let limit ← duration limit
    let m ← machine
    let own := m.clock + limit
    let isTighter := m.deadline?.all (own < ·)
    if limit != 0 && isTighter then setMachine { m with deadline? := some own }
    let outcome ← start launch name args
    let m' ← machine
    let isLate := limit != 0 && isTighter && m'.isStalled
    if limit != 0 && isTighter then
      setMachine { m' with deadline? := m.deadline?, isStalled := false }
    match outcome with
    | .error f => fail (startCode f) s!"failed to run command {Quoting.always name}: {f.text}"
    | .ok status => do
      if isLate then
        if g.has "p" || signal.number = 9 then return 128 + signal.number
        if g.has "k" && signal.number = 0 then return 137
        return 124
      throw status
  | _ => misuse wrapperFailure "missing operand"

end Unnest.Host.Utility
