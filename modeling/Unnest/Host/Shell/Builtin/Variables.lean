import Unnest.Host.Shell.Builtin.Basic

/-!
# Commands about variables and options

Variables are given values and attributes, shown, hidden in functions, and taken away;
the arguments of the shell and its options are changed; and lines are read into
variables.
-/

namespace Unnest.Host.Shell

namespace Act

/-! ## Showing variables -/

/-- A text between single quotes, as the plain shell shows values. -/
def singleQuoted (s : String) : String :=
  "'" ++ String.join (s.toList.map fun c => if c = '\x27' then "'\"'\"'" else c.toString) ++ "'"

/-- A text between double quotes, as the rich shell shows values. -/
def doubleQuoted (s : String) : String :=
  if s.all fun c => Octets.isPrintable c || c = '\n' || c.toNat ≥ 128 then
    "\"" ++ String.join (s.toList.map fun c =>
      if c = '"' || c = '\\' || c = '$' || c = '\x60' then "\\" ++ c.toString else c.toString) ++ "\""
  else Utility.shellQuoted .richShell s

/-- A value as the rich shell shows it among all variables. -/
def shownValue (s : String) : String :=
  if s != "" && s.all fun c => c.isAlphanum || "%+,-./:=@_^".toList.contains c then s
  else if s = "" then ""
  else if s.all fun c => Octets.isPrintable c || c.toNat ≥ 128 then singleQuoted s
  else Utility.shellQuoted .richShell s

/-- A value with its elements. -/
def declaredValue : Value → String
  | .text s => doubleQuoted s
  | .indexed es =>
    "(" ++ " ".intercalate (es.map fun e => s!"[{e.1}]=" ++ doubleQuoted e.2) ++ ")"
  | .keyed es => "(" ++ String.join (es.map fun e => s!"[{e.1}]=" ++ doubleQuoted e.2 ++ " ") ++ ")"

/-- The letters of the attributes of a variable. -/
def attributes (b : Binding) : String :=
  let letters :=
    (match b.value? with
    | some (.indexed _) => "a"
    | some (.keyed _) => "A"
    | _ => "") ++ (if b.isInteger then "i" else "") ++ (if b.isLower then "l" else "") ++
      (if b.isReference then "n" else "") ++ (if b.isReadonly then "r" else "") ++
      (if b.isUpper then "u" else "") ++ (if b.isExported then "x" else "")
  if letters = "" then "-" else letters

/-- The command that would declare a variable. -/
def declaration (name : String) (b : Binding) : String :=
  s!"declare -{attributes b} {name}" ++
    match b.value? with
    | some v => "=" ++ declaredValue v
    | none => ""

/-- All variables, by their names. -/
def sortedBindings : Act (List (String × Binding)) := do
  return (← get).bindings.mergeSort fun a b => decide (a.1 ≤ b.1)

/-- Shows the variables with an attribute. -/
def showMarked (word : String) (isMarked : Binding → Bool) : Act Nat := do
  let isRich ← isRich
  let lines := (← sortedBindings).filterMap fun (name, b) =>
    if !isMarked b then none
    else if isRich then some (declaration name b)
    else
      match b.value? with
      | some (.text s) => some s!"{word} {name}={singleQuoted s}"
      | _ => some s!"{word} {name}"
  print word (Octets.ofLines lines)

/-! ## Attributes -/

/-- Complains about a name that no variable can have. -/
def badName (command name : String) : Act Nat := do
  if ← isRich then
    complainAs command s!"\x60{name}': not a valid identifier"
    return 1
  else refuse command 2 s!"{name}: bad variable name"

/-- Gives variables an attribute, and values if there are any. -/
def mark (command : String) (change : Binding → Binding) (args : List String) : Act Nat := do
  let mut status := 0
  for arg in args do
    let (name, value?) := Octets.cut '=' arg
    let (name, isAppended) :=
      match ← isRich, Octets.before? "+" name with
      | true, some name => (name, value?.isSome)
      | _, _ => (name, false)
    if !isName name then
      status ← badName command name
    else
      match value? with
      | some value =>
        let old ← if isAppended then pure ((← textOf? name).getD "") else pure ""
        assignText name (old ++ value)
      | none => pure ()
      let name ← resolve name 8
      setBinding name (change ((← binding? name).getD {}))
  return status

/-- Exports variables. -/
def exportVariables : Builtin := fun _ args => do
  let (options, names) ← letters "export" (if ← isRich then "fnp" else "p") args
  let has (c : Char) : Bool := options.any (·.1 == c)
  if names.isEmpty || has 'p' then showMarked "export" (·.isExported)
  else if has 'f' then return 0
  else mark "export" (fun b => { b with isExported := !has 'n' }) names

/-- Protects variables. -/
def protectVariables : Builtin := fun _ args => do
  let (options, names) ← letters "readonly" (if ← isRich then "aAfp" else "p") args
  if names.isEmpty || options.any (·.1 == 'p') then showMarked "readonly" (·.isReadonly)
  else
    let mut status := 0
    for arg in names do
      status := max status (← mark "readonly" (fun b => { b with isReadonly := true }) [arg])
    return status

/-- Takes away an element of a variable. -/
def removeElement (name index : String) : Act Unit := do
  match ← binding? name with
  | some b =>
    match b.value? with
    | some (.indexed es) =>
      let i ← arithmetic index
      let size : Nat := (es.getLast?.map (·.1 + 1)).getD 0
      let i := if i < 0 then (size : Int) + i else i
      setBinding name { b with value? := some (.indexed (es.filter fun e => (e.1 : Int) != i)) }
    | some (.keyed es) =>
      setBinding name { b with value? := some (.keyed (es.filter (·.1 != index))) }
    | _ => removeBinding name
  | none => return

/-- Takes away variables or functions. -/
def unsetAll : Builtin := fun _ args => do
  let isRich ← isRich
  let (options, names) ← letters "unset" (if isRich then "fvn" else "fv") args
  let has (c : Char) : Bool := options.any (·.1 == c)
  let mut status := 0
  for arg in names do
    if has 'f' then modify fun s => { s with functions := s.functions.filter (·.1 != arg) }
    else
      let (name, index?) :=
        if isRich && arg.endsWith "]" then
          let (name, index?) := Octets.cut '[' arg
          (name, index?.map fun i => String.ofList i.toList.dropLast)
        else (arg, none)
      if !isName name then
        status ← badName "unset" name
      else
        let name ← if has 'n' then pure name else resolve name 8
        match ← binding? name, index? with
        | some b, _ =>
          if b.isReadonly then
            if isRich then
              complainAs "unset" s!"{name}: cannot unset: readonly variable"
              status := 1
            else refuse "unset" 2 s!"{name}: is read only"
          else
            match index? with
            | some "@" | some "*" | none => removeBinding name
            | some index => removeElement name index
        | none, none =>
          if isRich && !has 'v' then
            modify fun s => { s with functions := s.functions.filter (·.1 != name) }
        | none, some _ => pure ()
  return status

/-- Makes variables that only the function at work sees. -/
def makeLocal (args : List String) : Act Nat := do
  if (← get).hidden.isEmpty then
    if ← isRich then
      complainAs "local" "can only be used in a function"
      return 1
    else refuse "local" 2 "not in a function"
  let mut status := 0
  for arg in args do
    let (name, value?) := Octets.cut '=' arg
    if !isName name then
      status ← badName "local" name
    else
      hide name
      match value? with
      | some value => assignText name value
      | none =>
        if ← isRich then
          let b := (← binding? name).getD {}
          setBinding name { isExported := b.isExported }
  return status

/-! ## Declarations of the rich shell -/

/-- The attributes that options of a declaration give or take. -/
def declare (changes : List (Char × Bool)) (b : Binding) : Binding :=
  changes.foldl (fun b (c, isOn) =>
    match c with
    | 'x' => { b with isExported := isOn }
    | 'r' => { b with isReadonly := isOn || b.isReadonly }
    | 'i' => { b with isInteger := isOn }
    | 'l' => { b with isLower := isOn, isUpper := b.isUpper && !isOn }
    | 'u' => { b with isUpper := isOn, isLower := b.isLower && !isOn }
    | 'n' => { b with isReference := isOn }
    | 'a' =>
      match b.value? with
      | some (.text s) => { b with value? := some (.indexed [(0, s)]) }
      | none => { b with value? := some (.indexed []) }
      | _ => b
    | 'A' =>
      match b.value? with
      | none | some (.text _) => { b with value? := some (.keyed []) }
      | _ => b
    | _ => b) b

/-- The leading options of a declaration, which can be turned off as well. -/
def declareOptions : List String → List (Char × Bool) × List String
  | [] => ([], [])
  | "--" :: args => ([], args)
  | arg :: args =>
    match arg.toList with
    | '-' :: c :: cs =>
      let (changes, rest) := declareOptions args
      ((c :: cs).map (·, true) ++ changes, rest)
    | '+' :: c :: cs =>
      let (changes, rest) := declareOptions args
      ((c :: cs).map (·, false) ++ changes, rest)
    | _ => ([], arg :: args)

/-- Declares variables. -/
def declareAll (command : String) : Builtin := fun _ args => do
  let (changes, names) := declareOptions args
  let has (c : Char) : Bool := changes.contains (c, true)
  let known := "aAfFgiIlnprtux".toList
  match changes.find? fun c => !known.contains c.1 with
  | some (c, _) => refuse command 2 s!"-{c}: invalid option"
  | none => pure ()
  if has 'f' || has 'F' then
    let functions := (← get).functions
    let mut status := 0
    for name in names do
      if (functions.lookup name).isNone then status := 1
      else if has 'F' then
        let _ ← print command (name ++ "\n")
    return status
  if has 'p' && !names.isEmpty then
    let mut status := 0
    for name in names do
      match ← binding? name with
      | some b => status := max status (← print command (declaration name b ++ "\n"))
      | none =>
        complainAs command s!"{name}: not found"
        status := 1
    return status
  if names.isEmpty then
    let kind := changes.filter fun c => "aAilnrux".toList.contains c.1
    let isShown (b : Binding) : Bool :=
      kind.all fun c => Octets.has (attributes b) c.1
    let shown := (← sortedBindings).filter fun e => isShown e.2
    return ← print command (Octets.ofLines (shown.map fun (name, b) =>
      if kind.isEmpty && !has 'p' then
        name ++ "=" ++ (b.value?.elim "" fun v =>
          match v with
          | .text s => shownValue s
          | v => declaredValue v)
      else declaration name b))
  let isLocal := !(← get).hidden.isEmpty && !has 'g'
  let mut status := 0
  for arg in names do
    let (left, value?) := Octets.cut '=' arg
    let (left, isAppended) :=
      match Octets.before? "+" left with
      | some left => (left, value?.isSome)
      | none => (left, false)
    let (name, index?) := Octets.cut '[' left
    let index? := index?.map fun i => String.ofList i.toList.dropLast
    if !isName name then
      status ← badName command left
    else
      if isLocal then
        hide name
        if !isAppended && value?.isNone then
          setBinding name {}
      let early := changes.filter fun c => c.1 != 'r' && c.1 != 'n'
      setBinding name (declare early ((← binding? name).getD {}))
      match value?, index? with
      | some value, some index => assignElement arithmetic name index value
      | some value, none => do
        let b := (← binding? name).getD {}
        let old ← if isAppended then pure ((← textOf? name).getD "") else pure ""
        if b.isInteger then
          let n ← arithmetic value
          let m ← arithmetic old
          assignText name (toString (m + n))
        else assignText name (old ++ value)
      | none, _ => pure ()
      setBinding name (declare (changes.filter fun c => c.1 == 'r' || c.1 == 'n') ((← binding? name).getD {}))
  return status

/-- Makes local variables, with attributes in the rich shell. -/
def localVariables : Builtin := fun e args => do
  if ← isRich then
    if (← get).hidden.isEmpty then makeLocal args else declareAll "local" e args
  else makeLocal args

/-! ## Arguments and options -/

/-- The options by their letters. -/
def letterOptions (isRich : Bool) : List (Char × String) :=
  [('e', "errexit"), ('f', "noglob"), ('m', "monitor"), ('n', "noexec"), ('x', "xtrace"),
    ('v', "verbose"), ('C', "noclobber"), ('a', "allexport"), ('b', "notify"), ('u', "nounset")] ++
    if isRich then
      [('h', "hashall"), ('B', "braceexpand"), ('E', "errtrace"), ('T', "functrace"), ('P', "physical"),
        ('k', "keyword"), ('p', "privileged"), ('t', "onecmd"), ('H', "histexpand")]
    else [('I', "ignoreeof"), ('i', "interactive"), ('s', "stdin"), ('V', "vi"), ('E', "emacs")]

/-- The options by their names, in the order in which they are listed. -/
def namedOptions (isRich : Bool) : List String :=
  if isRich then
    ["allexport", "braceexpand", "emacs", "errexit", "errtrace", "functrace", "hashall", "histexpand",
      "history", "ignoreeof", "interactive-comments", "keyword", "monitor", "noclobber", "noexec", "noglob",
      "nolog", "notify", "nounset", "onecmd", "physical", "pipefail", "posix", "privileged", "verbose",
      "vi", "xtrace"]
  else
    ["errexit", "noglob", "ignoreeof", "interactive", "monitor", "noexec", "stdin", "xtrace", "verbose",
      "vi", "emacs", "noclobber", "allexport", "notify", "nounset", "nolog", "debug"]

/-- Lists the options that have names. -/
def listOptions : Act Nat := do
  let s ← get
  let isRich := s.dialect == .rich
  let isOn (o : String) : Bool := s.options.contains o || o = "interactive-comments"
  let line (o : String) : String :=
    if isRich then Octets.padRight ' ' 15 o ++ "\t" ++ (if isOn o then "on" else "off")
    else Octets.padRight ' ' 16 o ++ (if isOn o then "on" else "off")
  print "set" (Octets.ofLines
    ((if isRich then [] else ["Current option settings"]) ++ (namedOptions isRich).map line))

/-- Turns options on and off as the leading arguments say; what follows them, if they
end with a sign for it or something follows. -/
def changeOptions : List String → Act (Option (List String))
  | [] => return none
  | "--" :: args => return some args
  | "-" :: args => do
    setOption "xtrace" false
    setOption "verbose" false
    return if args.isEmpty then none else some args
  | arg :: args => do
    let isRich ← isRich
    match arg.toList with
    | sign :: c :: cs =>
      if sign != '-' && sign != '+' then return some (arg :: args)
      let isOn := sign == '-'
      let takesName := (c :: cs).contains 'o'
      for letter in c :: cs do
        if letter != 'o' then
          match (letterOptions isRich).lookup letter with
          | some option => setOption option isOn
          | none =>
            if isRich then refuse "set" 2 s!"{sign}{letter}: invalid option"
            else refuse "set" 2 s!"Illegal option {sign}{letter}"
      if takesName then
        match args with
        | [] => do
          let _ ← listOptions
          return none
        | name :: args => do
          if (namedOptions isRich).contains name then setOption name isOn
          else if isRich then
            complainAs "set" s!"{name}: invalid option name"
            setStatus 2
            throw .failed
          else refuse "set" 2 s!"Illegal option {sign}o {name}"
          changeOptions args
      else changeOptions args
    | _ => return some (arg :: args)

/-- Shows all variables. -/
def showVariables : Act Nat := do
  let isRich ← isRich
  let lines := (← sortedBindings).filterMap fun (name, b) =>
    match b.value? with
    | some (.text s) => some (name ++ "=" ++ if isRich then shownValue s else singleQuoted s)
    | some v => some (name ++ "=" ++ declaredValue v)
    | none => none
  print "set" (Octets.ofLines lines)

/-- Changes the options and the arguments of the shell. -/
def setAll : Builtin := fun _ args => do
  if args.isEmpty then return ← showVariables
  match ← changeOptions args with
  | some arguments => modify fun s => { s with arguments }
  | none => pure ()
  return 0

/-- Drops leading arguments of the shell. -/
def shift : Builtin := fun _ args => do
  let arguments := (← get).arguments
  let n ←
    match args with
    | [] => pure 1
    | arg :: _ => do
      if (← isRich) && (Numeral.spaced? arg).any (· < 0) then
        refuse "shift" 1 s!"{arg}: shift count out of range"
      number "shift" arg
  if arguments.length < n then
    if ← isRich then return 1 else refuse "shift" 2 "can't shift that many"
  modify fun s => { s with arguments := s.arguments.drop n }
  return 0

/-- The options of the rich shell that have names of their own. -/
def shopNames : List String :=
  ["autocd", "cdspell", "checkhash", "checkwinsize", "cmdhist", "dotglob", "execfail", "expand_aliases",
    "extdebug", "extglob", "extquote", "failglob", "force_fignore", "globasciiranges", "globskipdots",
    "globstar", "gnu_errfmt", "histappend", "huponexit", "inherit_errexit", "interactive_comments", "lastpipe",
    "lithist", "localvar_inherit", "localvar_unset", "mailwarn", "nocaseglob", "nocasematch", "nullglob",
    "patsub_replacement", "progcomp", "promptvars", "shift_verbose", "sourcepath", "xpg_echo"]

/-- Turns options of the rich shell on and off, or asks for them. -/
def shop : Builtin := fun _ args => do
  let (options, names) ← letters "shopt" "supqo" args
  let has (c : Char) : Bool := options.any (·.1 == c)
  let mut status := 0
  for name in names do
    if !(shopNames.contains name || (has 'o' && (namedOptions true).contains name)) then
      complainAs "shopt" s!"{name}: invalid shell option name"
      status := 1
    else if has 's' then setOption name true
    else if has 'u' then setOption name false
    else
      let isOn ← isOn name
      if !isOn then status := 1
      if !has 'q' then
        let shown := if isOn then "on" else "off"
        let _ ← print "shopt" (Octets.padRight ' ' 15 name ++ "\t" ++ shown ++ "\n")
  return status

/-! ## Reading lines -/

/-- What `read` is asked for. -/
structure ReadOptions where
  isRaw : Bool := false
  descriptor : Nat := 0
  delimiter : Char := '\n'
  /-- The number of characters after which it stops. -/
  count? : Option Nat := none
  array? : Option String := none

/-- The characters of a line, with those that a backslash hid marked; how many octets
were read, and whether the line was ended. -/
def lineGlyphs (o : ReadOptions) : (count : Nat) → List Char → List Glyph × Nat × Bool
  | _, [] => ([], 0, false)
  | count, '\\' :: '\n' :: cs =>
    if o.isRaw then
      if o.delimiter = '\n' then ([⟨'\\', false⟩], 2, true)
      else
        let (gs, n, isEnded) := lineGlyphs o (count + 2) cs
        (⟨'\\', false⟩ :: ⟨'\n', false⟩ :: gs, n + 2, isEnded)
    else
      let (gs, n, isEnded) := lineGlyphs o count cs
      (gs, n + 2, isEnded)
  | count, c :: cs =>
    if o.count? == some count then ([], 0, true)
    else if c = o.delimiter then ([], 1, true)
    else if c = '\\' && !o.isRaw then
      match cs with
      | [] => ([], 1, false)
      | d :: cs =>
        let (gs, n, isEnded) := lineGlyphs o (count + 1) cs
        (⟨d, true⟩ :: gs, n + 2, isEnded)
    else
      let (gs, n, isEnded) := lineGlyphs o (count + 1) cs
      (⟨c, false⟩ :: gs, n + 1, isEnded)

/-- Whether a glyph separates fields, and whether it is a blank that does. -/
def isSeparator (separators : List Char) (g : Glyph) : Bool := !g.isLiteral && separators.contains g.char

def isBlankSeparator (separators : List Char) (g : Glyph) : Bool :=
  isSeparator separators g && (g.char = ' ' || g.char = '\t' || g.char = '\n')

/-- The first field of a line and what follows the separators behind it. -/
def firstField (separators : List Char) (gs : List Glyph) : List Glyph × List Glyph :=
  let field := gs.takeWhile fun g => !isSeparator separators g
  let rest := (gs.drop field.length).dropWhile (isBlankSeparator separators)
  match rest with
  | g :: rest' =>
    if isSeparator separators g && !isBlankSeparator separators g then
      (field, rest'.dropWhile (isBlankSeparator separators))
    else (field, rest)
  | [] => (field, [])

/-- The fields of a line for a number of variables; the last takes all that is left. -/
def lineFields (separators : List Char) : (count : Nat) → List Glyph → List String
  | 0, _ => []
  | 1, gs =>
    let (field, rest) := firstField separators gs
    if rest.isEmpty then [Glyph.text field]
    else [Glyph.text (gs.reverse.dropWhile (isBlankSeparator separators)).reverse]
  | count + 1, gs =>
    let (field, rest) := firstField separators gs
    Glyph.text field :: lineFields separators count rest

/-- All fields of a line. -/
def allFields (separators : List Char) : (steps : Nat) → List Glyph → List String
  | 0, _ => []
  | _, [] => []
  | steps + 1, gs =>
    let (field, rest) := firstField separators gs
    Glyph.text field :: allFields separators steps rest

/-- Reads a line into variables. -/
def readLineInto : Builtin := fun _ args => do
  let isRich ← isRich
  let (given, names) ← letters "read" (if isRich then "ersa:d:i:n:N:p:t:u:" else "rp:") args
  let value? (c : Char) : Option String := (given.reverse.find? (·.1 == c)).map (·.2)
  let descriptor ←
    match value? 'u' with
    | some n => number "read" n
    | none => pure 0
  let count? ← (match value? 'n' with
    | some n => some n
    | none => value? 'N').mapM (number "read")
  let o : ReadOptions :=
    { isRaw := given.any (·.1 == 'r'), descriptor, count?
      delimiter := (value? 'd').elim '\n' fun d => d.toList.headD '\x00'
      array? := value? 'a' }
  if names.isEmpty && !isRich then refuse "read" 2 "arg count"
  for name in names do
    if !isName name then
      return ← badName "read" name
  let s ← get
  let text? : Except Fault String :=
    match s.process.opening? o.descriptor with
    | none => .error .badDescriptor
    | some opening => s.machine.rest opening
  match text? with
  | .error f =>
    if isRich then complainAs "read" s!"read error: {o.descriptor}: {f.text}"
    return if isRich then 1 else 1
  | .ok text =>
    let cs := text.toList.filter fun c => c != '\x00' || o.delimiter = '\x00'
    let (gs, count, isEnded) := lineGlyphs o 0 cs
    let isEnded := isEnded || o.count? == some gs.length
    match s.process.opening? o.descriptor with
    | some opening => setMachine (s.machine.consume opening count)
    | none => pure ()
    let separators ← separators
    let trimmed := gs.dropWhile (isBlankSeparator separators)
    match o.array?, names with
    | some name, _ =>
      let fields := allFields separators (gs.length + 1) trimmed
      assign name (.indexed ((List.range fields.length).zip fields))
    | none, [] => assignText "REPLY" (Glyph.text gs)
    | none, names =>
      let fields :=
        if (value? 'N').isSome then [Glyph.text gs] else lineFields separators names.length trimmed
      for (name, field) in names.zip (fields ++ List.replicate names.length "") do
        assignText name field
    return if isEnded then 0 else 1

/-- Reads all lines into an array. -/
def readLines : Builtin := fun _ args => do
  let (given, names) ← letters "mapfile" "d:n:O:s:tu:C:c:" args
  let value? (c : Char) : Option String := (given.reverse.find? (·.1 == c)).map (·.2)
  let descriptor ←
    match value? 'u' with
    | some n => number "mapfile" n
    | none => pure 0
  let skipped ←
    match value? 's' with
    | some n => number "mapfile" n
    | none => pure 0
  let s ← get
  match s.process.opening? descriptor with
  | none => return 1
  | some opening =>
    match s.machine.rest opening with
    | .error _ => return 1
    | .ok text =>
      setMachine (s.machine.consume opening text.length)
      let lines := if given.any (·.1 == 't') then Octets.lines text else Octets.rawLines text
      let lines := lines.drop skipped
      let lines ←
        match value? 'n' with
        | some n => do
          let n ← number "mapfile" n
          pure (if n = 0 then lines else lines.take n)
        | none => pure lines
      assign (names.headD "MAPFILE") (.indexed ((List.range lines.length).zip lines))
      return 0

/-- Reads the options among arguments, one at each call. -/
def getOptions : Builtin := fun _ args => do
  let isRich ← isRich
  match args with
  | known :: name :: given =>
    let s ← get
    let arguments := if given.isEmpty then s.arguments else given
    let index := ((Numeral.decimal? ((← textOf? "OPTIND").getD "1")).getD 1)
    let offset := s.optionOffset
    let isSilent := known.startsWith ":"
    let known := if isSilent then known.toList.drop 1 else known.toList
    let finish (index offset : Nat) : Act Unit := do
      assignText "OPTIND" (toString index)
      modify fun s => { s with optionOffset := offset }
    let stop (index : Nat) : Act Nat := do
      finish index 0
      assignText name "?"
      if isRich then removeBinding "OPTARG"
      return 1
    match arguments[index - 1]? with
    | none => stop (max index (arguments.length + 1))
    | some arg =>
      if arg = "--" && offset = 0 then stop (index + 1)
      else if offset = 0 && (!arg.startsWith "-" || arg = "-") then stop index
      else
        let offset := max offset 1
        let cs := arg.toList
        let c := cs[offset]?.getD '?'
        let isLast := offset + 1 ≥ cs.length
        let (nextIndex, nextOffset) := if isLast then (index + 1, 0) else (index, offset + 1)
        match OptionTable.letter? c known with
        | none =>
          finish nextIndex nextOffset
          assignText name "?"
          if isSilent then assignText "OPTARG" c.toString
          else
            if isRich then
              removeBinding "OPTARG"
              let s ← get
              write 2 s!"{s.name}: illegal option -- {c}\n"
            else
              removeBinding "OPTARG"
              write 2 s!"Illegal option -{c}\n"
          return 0
        | some .nothing =>
          finish nextIndex nextOffset
          assignText name c.toString
          if isRich then removeBinding "OPTARG" else assignText "OPTARG" ""
          return 0
        | some _ =>
          let value? := if isLast then arguments[index]? else some (String.ofList (cs.drop (offset + 1)))
          match value? with
          | some value =>
            finish (if isLast then index + 2 else index + 1) 0
            assignText "OPTARG" value
            assignText name c.toString
            return 0
          | none =>
            finish (index + 1) 0
            if isSilent then
              assignText "OPTARG" c.toString
              assignText name ":"
            else
              removeBinding "OPTARG"
              assignText name "?"
              if isRich then
                let s ← get
                write 2 s!"{s.name}: option requires an argument -- {c}\n"
              else write 2 s!"No arg for -{c} option\n"
            return 0
  | _ =>
    if isRich then
      complainAs "getopts" "usage: getopts optstring name [arg ...]"
      return 2
    else refuse "getopts" 2 "Usage: getopts optstring var [arg...]"

/-- Computes expressions; whether the last is zero. -/
def computeAll : Builtin := fun _ args => do
  if args.isEmpty then
    refuse "let" 1 "expression expected"
  let mut last : Int := 0
  for arg in args do
    last ← arithmetic arg
  return if last = 0 then 1 else 0

end Act

end Unnest.Host.Shell
