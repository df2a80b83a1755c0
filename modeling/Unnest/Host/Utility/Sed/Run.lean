import Unnest.Host.Utility.Sed.Reader
import Unnest.Host.Utility.Show

/-!
# Editing lines

An editor reads a line, does the steps of the script with it, and prints what has become
of it, until there are no lines left.  Besides the line it keeps a second text, and
texts that are printed behind the line.  Files are edited as one long text, or each on
its own, in which case what is printed can take the place of the file.
-/

namespace Unnest.Host.Sed

/-- Where lines are written, and whether the last one is still without its end. -/
structure Output where
  opening : Nat
  isOpenLine : Bool := false
  deriving Inhabited

/-- What is printed behind a line. -/
inductive Later where
  | text (s : String)
  | file (path : String)
  deriving Inhabited

/-- How far a range of lines has come. -/
inductive RangeState where
  | before
  | inside (last? : Option Nat)
  deriving Inhabited

/-- How an editor works. -/
structure Manner where
  isSilent : Bool := false
  /-- Whether files are edited each on its own. -/
  isSeparate : Bool := false
  /-- The ending of the names that files get which are replaced, if they are. -/
  replaces? : Option String := none
  ending : Char := '\n'
  width : Nat := 70
  deriving Inhabited

/-- An editor at work. -/
structure Editor where
  script : Script
  manner : Manner
  /-- The line that is edited. -/
  line : String := ""
  /-- Whether the line had an end. -/
  hasEnd : Bool := true
  /-- The second text. -/
  kept : String := ""
  number : Nat := 0
  /-- The lines that are left of the file, with their ends. -/
  lines : List String := []
  /-- The files that are left. -/
  files : List String := []
  file : String := "-"
  /-- What was printed for the file that is to be replaced. -/
  replacement? : Option String := none
  isOpenLine : Bool := false
  later : List Later := []
  /-- Whether an exchange was made since the line was read. -/
  isChanged : Bool := false
  ranges : List (Nat × RangeState) := []
  lastRegex? : Option Expression := none
  outputs : List (String × Output) := []
  /-- What is left of files that are read line by line. -/
  inputs : List (String × List String) := []
  code : Nat := 0
  deriving Inhabited

/-- What an editor does. -/
abbrev Edit := StateT Editor Work

/-- How the steps for a line end. -/
inductive Ending where
  /-- The line is printed unless the editor is silent. -/
  | done
  | deleted
  /-- The steps start again with what is left of the line. -/
  | again
  | quit (code : Nat) (isSilent : Bool)

namespace Edit

/-! ## Printing -/

/-- Prints a text as it is. -/
def emit (text : String) : Edit Unit := do
  let s ← get
  match s.replacement? with
  | some done => set { s with replacement? := some (done ++ text) }
  | none => Work.print text

/-- Prints a text, behind the end of a line that was without one. -/
def put (text : String) (hasEnd : Bool) : Edit Unit := do
  let s ← get
  let ending := s.manner.ending.toString
  emit ((if s.isOpenLine then ending else "") ++ text ++ (if hasEnd then ending else ""))
  modify fun s => { s with isOpenLine := !hasEnd }

/-- Prints a text of whole lines. -/
def putText (text : String) : Edit Unit := do
  if text != "" then
    let s ← get
    emit ((if s.isOpenLine then s.manner.ending.toString else "") ++ text)
    modify fun s => { s with isOpenLine := false }

/-- Writes a line into a file of the script. -/
def writeTo (path text : String) (hasEnd : Bool) : Edit Unit := do
  if path = "/dev/stdout" then
    let s ← get
    if s.replacement?.isSome then Work.print (text ++ (if hasEnd then "\n" else "")) else put text hasEnd
  else
    match (← get).outputs.lookup path with
    | none => return
    | some o => do
      let ending := (← get).manner.ending.toString
      let m := (← getThe Task).machine
      match m.write o.opening ((if o.isOpenLine then ending else "") ++ text ++ (if hasEnd then ending else "")) with
      | .ok m => do
        Work.setMachine m
        modify fun s =>
          { s with
            outputs := s.outputs.map fun e =>
              if e.1 == path then (path, { o with isOpenLine := !hasEnd }) else e }
      | .error f => Work.fail 4 s!"couldn't write to {path}: {f.text}"

/-- Prints what was put aside for the end of the line. -/
def putLater : Edit Unit := do
  let later := (← get).later
  modify fun s => { s with later := [] }
  for l in later do
    match l with
    | .text s => putText s
    | .file path =>
      match ← Work.readOperand (if path = "/dev/stdin" then "-" else path) with
      | .ok text => putText text
      | .error _ => pure ()

/-! ## Reading -/

/-- Puts what was printed in the place of the file. -/
def finishFile : Edit Unit := do
  let s ← get
  match s.replacement?, s.manner.replaces? with
  | some text, some ending => do
    set { s with replacement? := none, isOpenLine := false }
    let fs ← Work.files
    let here ← Work.here
    match fs.find here s.file with
    | .error _ => return
    | .ok i => do
      let mode := (fs.get i).mode
      if ending != "" then
        let backup :=
          if Octets.has ending '*' then
            let base := String.ofList (s.file.toList.reverse.takeWhile (· != '/')).reverse
            let directory := Octets.take (s.file.length - base.length) s.file
            let name := base.intercalate (Octets.split (· == '*') ending)
            if Octets.has name '/' then name else directory ++ name
          else s.file ++ ending
        let _ ← Work.change fun fs here => fs.rename here s.file backup
      else
        let _ ← Work.change fun fs here => fs.unlink here s.file
      let _ ← Work.change fun fs here => return (← fs.create here s.file (.file text) mode).2
  | _, _ => return

/-- Opens the next file that can be read; whether there is one. -/
def openNext : (steps : Nat) → Edit Bool
  | 0 => return false
  | steps + 1 => do
    let s ← get
    match s.files with
    | [] => return false
    | file :: files => do
      modify fun s => { s with files }
      let replaces := s.manner.replaces?.isSome
      let found ← Work.ask fun fs here => (fs.find? here file).map fs.get
      match replaces && file != "-", found with
      | true, some n =>
        if !n.isFile then
          Work.complain s!"couldn't edit {file}: not a regular file"
          modify fun s => { s with code := 4 }
          return ← openNext steps
      | _, _ => pure ()
      match ← Work.readOperand file with
      | .error .isDirectory => Work.fail 4 s!"read error on {file}: {Fault.isDirectory.text}"
      | .error f => do
        Work.complain s!"can't read {file}: {f.text}"
        modify fun s => { s with code := 2 }
        openNext steps
      | .ok text => do
        let ending := s.manner.ending
        let pieces := Octets.split (· == ending) text
        let lines := (pieces.dropLast.map (·.push ending)) ++
          (if pieces.getLastD "" == "" then [] else [pieces.getLastD ""])
        modify fun s =>
          { s with
            file, lines
            number := if s.manner.isSeparate then 0 else s.number
            replacement? := if replaces && file != "-" then some "" else none }
        if lines.isEmpty then
          -- a file without lines is edited as well
          finishFile
          openNext steps
        else return true

/-- Whether the line is the last one. -/
def isLast : Edit Bool := do
  let s ← get
  if !s.lines.isEmpty then return false
  if s.manner.isSeparate then return true
  -- later files count only if there is something in them
  let later ← s.files.anyM fun file => do
    let found ← Work.ask fun fs here => (fs.find? here file).map fs.get
    return found.any fun n => n.isDirectory || n.size > 0 || n.isDevice
  return !later

/-- Reads the next line, unless `text` is to be kept in front of it; whether there is
one. -/
def readLine (front? : Option String) : Edit Bool := do
  let ready ←
    if (← get).lines.isEmpty then do
      let s ← get
      if s.files.isEmpty then pure false
      else if front?.isSome && s.manner.isSeparate then pure false
      else
        finishFile
        openNext (s.files.length + 1)
    else pure true
  if !ready then return false
  let s ← get
  match s.lines with
  | [] => return false
  | raw :: lines => do
    let (line, hasEnd) :=
      match raw.toList.reverse with
      | c :: cs => if c = s.manner.ending then (String.ofList cs.reverse, true) else (raw, false)
      | [] => ("", false)
    let line := match front? with
      | some front => (front.push s.manner.ending) ++ line
      | none => line
    set { s with line, hasEnd, lines, number := s.number + 1 }
    return true

/-! ## Selecting -/

/-- Matches an expression with a text from a place on. -/
def search (e : Expression) (spot : Regex.Spot) : Edit (Option Regex.Match) := do
  let e ←
    match e.regex? with
    | some _ => do
      modify fun s => { s with lastRegex? := some e }
      pure e
    | none =>
      match (← get).lastRegex? with
      | some last => pure { last with isMultiline := last.isMultiline || e.isMultiline }
      | none => Work.fail 1 "no previous regular expression"
  let r := e.regex?.getD .nothing
  return Regex.search { ignoresCase := e.ignoresCase, isMultiline := e.isMultiline } r spot

/-- The place at the start of the line. -/
def startOfLine : Edit Regex.Spot := return { offset := 0, before? := none, rest := (← get).line.toList }

/-- Whether an address is that of the line. -/
def isAt : Address → Edit Bool
  | .line n => return (← get).number == n
  | .steps first step => do
    let n := (← get).number
    return decide (first ≤ n) && (n - first) % step == 0
  | .last => isLast
  | .pattern e => return (← search e (← startOfLine)).isSome

/-- Whether a step is for the line, by the number of the step. -/
def isSelected (i : Nat) (s : Selector) : Edit Bool := do
  let setRange (r : RangeState) : Edit Unit :=
    modify fun e => { e with ranges := (i, r) :: e.ranges.filter (·.1 != i) }
  let inRange : Edit Bool := do
    match s.first?, s.stop? with
    | none, _ => return true
    | some a, none => isAt a
    | some a, some stop => do
      let n := (← get).number
      let state : RangeState :=
        match (← get).ranges.lookup i, a with
        | some r, _ => r
        | none, .line 0 => .inside none
        | none, _ => .before
      let start : Edit Bool := do
        if !(← isAt a) then return false
        match stop with
        | .address (.line last) => setRange (if last ≤ n then .before else .inside (some last))
        | .address _ => setRange (.inside none)
        | .count k => setRange (if k = 0 then .before else .inside (some (n + k)))
        | .multiple k =>
          let last := if k = 0 then n else (n + k - 1) / k * k
          setRange (if last ≤ n then .before else .inside (some last))
        return true
      match state with
      | .before => start
      | .inside (some last) => do
        if last ≤ n then setRange .before
        if n ≤ last then return true else start
      | .inside none => do
        match stop with
        | .address b => if ← isAt b then setRange .before
        | _ => setRange .before
        return true
  return (← inRange) != s.isNegated

/-! ## Exchanging -/

/-- A text with its letters changed; the first one can be changed in another way. -/
def recased (all? first? : Option Char) (text : String) : String :=
  let change (c? : Option Char) (c : Char) : Char :=
    match c? with
    | some 'U' | some 'u' => c.toUpper
    | some 'L' | some 'l' => c.toLower
    | _ => c
  match text.toList with
  | [] => ""
  | c :: cs => String.ofList (change (if first?.isSome then first? else all?) c :: cs.map (change all?))

/-- What a match is replaced by. -/
def replacementFor (matched : List Char) (m : Regex.Match) :
    List Part → (all? first? : Option Char) → String
  | [], _, _ => ""
  | .letterCase c :: parts, all?, _ =>
    if c = 'E' then replacementFor matched m parts none none
    else if c = 'U' || c = 'L' then replacementFor matched m parts (some c) none
    else replacementFor matched m parts all? (some c)
  | .text s :: parts, all?, first? =>
    recased all? first? s ++ replacementFor matched m parts all? (if s = "" then first? else none)
  | .group n :: parts, all?, first? =>
    let s := String.ofList (if n = 0 then matched else m.group n)
    recased all? first? s ++ replacementFor matched m parts all? (if s = "" then first? else none)

/-- Exchanges matches from a place on: the text, and whether one was exchanged.  `count`
is the number of the next match, and `after?` the end of the one before. -/
def exchanged (s : Substitution) : (steps : Nat) → (count : Nat) → (after? : Option Nat) → Regex.Spot →
    Edit (String × Bool)
  | 0, _, _, spot => return (String.ofList spot.rest, false)
  | steps + 1, count, after?, spot => do
    match ← search s.expression spot with
    | none => return (String.ofList spot.rest, false)
    | some m => do
      let lead := String.ofList (spot.rest.take (m.first - spot.offset))
      let matched := (spot.rest.drop (m.first - spot.offset)).take m.length
      -- one character is passed over behind an empty match
      let goOn (count : Nat) (after? : Option Nat) : Edit (String × Bool) := do
        if m.length > 0 then exchanged s steps count after? m.stop
        else
          match m.stop.rest with
          | [] => return ("", false)
          | c :: _ => do
            let (rest, isChanged) ← exchanged s steps count after? m.stop.next
            return (c.toString ++ rest, isChanged)
      if m.length = 0 && after? == some m.first then
        let (rest, isChanged) ← goOn count none
        return (lead ++ rest, isChanged)
      else if count < s.number then
        let (rest, isChanged) ← goOn (count + 1) (some m.last)
        return (lead ++ String.ofList matched ++ rest, isChanged)
      else
        let new := replacementFor matched m s.replacement none none
        if s.isGlobal then
          let (rest, _) ← goOn (count + 1) (some m.last)
          return (lead ++ new ++ rest, true)
        else return (lead ++ new ++ String.ofList m.stop.rest, true)

/-- A line as it is shown with escapes, in pieces of a width. -/
def listed (width : Nat) (text : String) : String :=
  let shown := text.toList.map fun c =>
    if c = '\\' then "\\\\" else if Octets.isPrintable c then c.toString else Quoting.escaped c
  let (out, _) := shown.foldl (fun ((out, column) : String × Nat) piece =>
    if width > 1 && column + piece.length > width - 1 then (out ++ "\\\n" ++ piece, piece.length)
    else (out ++ piece, column + piece.length)) ("", 0)
  out ++ "$"

/-! ## Steps -/

/-- Where a branch leads. -/
def target (label? : Option String) : Edit Nat := do
  let s := (← get).script
  match label? with
  | none => return s.steps.size
  | some name => return (s.labels.lookup name).getD s.steps.size

/-- The line up to its first end, and what follows it. -/
def firstOf (line : String) : Edit (String × Option String) :=
  return Octets.cut (← get).manner.ending line

/-- Does the steps from one on. -/
def runFrom : (steps i : Nat) → Edit Ending
  | 0, _ => return .done
  | steps + 1, i => do
    let s ← get
    match s.script.steps[i]? with
    | none => return .done
    | some step => do
      let on := runFrom steps (i + 1)
      if !(← isSelected i step.selector) then
        match step.action with
        | .enter stop => runFrom steps stop
        | _ => on
      else
        let s ← get
        match step.action with
        | .enter _ | .none => on
        | .append text => do
          modify fun s => { s with later := s.later ++ [.text text] }
          on
        | .insert text => do
          putText text
          on
        | .change text => do
          -- of a range the text takes the place of the last line
          let isInside :=
            match s.ranges.lookup i with
            | some (.inside _) => step.selector.stop?.isSome && !step.selector.isNegated
            | _ => false
          if !isInside || (← isLast) then putText text
          return .deleted
        | .branch label? => do runFrom steps (← target label?)
        | .branchIf label? => do
          if s.isChanged then
            modify fun s => { s with isChanged := false }
            runFrom steps (← target label?)
          else on
        | .branchUnless label? => do
          if s.isChanged then
            modify fun s => { s with isChanged := false }
            on
          else runFrom steps (← target label?)
        | .delete => return .deleted
        | .deleteFirst => do
          match ← firstOf s.line with
          | (_, none) => return .deleted
          | (_, some rest) => do
            modify fun s => { s with line := rest }
            return .again
        | .fileName => do
          putText (s.file ++ "\n")
          on
        | .recall appends => do
          modify fun s =>
            { s with line := if appends then (s.line.push s.manner.ending) ++ s.kept else s.kept }
          on
        | .keep appends => do
          modify fun s =>
            { s with kept := if appends then (s.kept.push s.manner.ending) ++ s.line else s.line }
          on
        | .exchange => do
          modify fun s => { s with line := s.kept, kept := s.line }
          on
        | .list width? => do
          putText (listed (width?.getD s.manner.width) s.line ++ "\n")
          on
        | .next => do
          if (← isLast) && (s.files.isEmpty || s.manner.isSeparate) then
            return .quit 0 false
          if !s.manner.isSilent then put s.line s.hasEnd
          putLater
          if ← readLine none then on else return .quit 0 true
        | .appendNext => do
          if ← isLast then return .quit 0 false
          putLater
          if ← readLine (some s.line) then on else return .quit 0 false
        | .print => do
          put s.line true
          on
        | .printFirst => do
          put (← firstOf s.line).1 true
          on
        | .quit code isSilent => return .quit code isSilent
        | .readFile path => do
          modify fun s => { s with later := s.later ++ [.file path] }
          on
        | .readLine path => do
          let lines ←
            match s.inputs.lookup path with
            | some lines => pure lines
            | none => do
              match ← Work.readOperand path with
              | .ok text => pure (Octets.lines text)
              | .error _ => pure []
          match lines with
          | [] => pure ()
          | line :: _ => modify fun s => { s with later := s.later ++ [.text (line ++ "\n")] }
          modify fun s => { s with inputs := (path, lines.tail) :: s.inputs.filter (·.1 != path) }
          on
        | .write path => do
          writeTo path s.line s.hasEnd
          on
        | .writeFirst path => do
          writeTo path (← firstOf s.line).1 true
          on
        | .substitute sub => do
          let (line, isChanged) ← exchanged sub (s.line.length + 2) 1 none (← startOfLine)
          if isChanged then
            modify fun s => { s with line, isChanged := true }
            if sub.prints then put line true
            match sub.path? with
            | some path => writeTo path line s.hasEnd
            | none => pure ()
          on
        | .transliterate pairs => do
          modify fun s => { s with line := s.line.map fun c => (pairs.lookup c).getD c }
          on
        | .number => do
          putText (toString s.number ++ "\n")
          on
        | .empty => do
          modify fun s => { s with line := "" }
          on

/-- How many steps are done at most for one line. -/
def stepLimit : Nat := Nat.pow 10 6

/-- Edits the lines that are left; `reads` says whether the next one is still to be
read. -/
def runLines : (rounds : Nat) → (reads : Bool) → Edit Unit
  | 0, _ => return
  | rounds + 1, reads => do
    let ready ← if reads then readLine none else pure true
    if !ready then return
    if reads then modify fun s => { s with isChanged := false }
    let ending ← runFrom stepLimit 0
    let s ← get
    match ending with
    | .done => do
      if !s.manner.isSilent then put s.line s.hasEnd
      putLater
      runLines rounds true
    | .deleted => do
      putLater
      runLines rounds true
    | .again => do
      putLater
      runLines rounds false
    | .quit code isSilent => do
      if !isSilent && !s.manner.isSilent then put s.line s.hasEnd
      putLater
      -- where each file is edited on its own, the others still are
      let goesOn := s.manner.isSeparate && code = 0 && s.lines.isEmpty && !s.files.isEmpty
      if goesOn then runLines rounds true
      else modify fun s => { s with code := if code = 0 then s.code else code }

end Edit

end Unnest.Host.Sed

namespace Unnest.Host.Utility

open Work Sed

/-- The files that a script writes. -/
def writtenPaths (s : Script) : List String :=
  s.steps.toList.filterMap fun step =>
    match step.action with
    | .write path | .writeFirst path => some path
    | .substitute sub => sub.path?
    | _ => none

/-- The labels that a script branches to. -/
def usedLabels (s : Script) : List String :=
  s.steps.toList.filterMap fun step =>
    match step.action with
    | .branch l | .branchIf l | .branchUnless l => l
    | _ => none

/-- Edits lines with a script. -/
def edit : Utility := fun args => do
  let g ← options
    { letters := "bsnrzuEe:f:l:i::V:hs"
      words := [("regexp-extended", .nothing, "E"), ("debug", .nothing, "debug"), ("in-place", .attached, "i"),
        ("expression", .value, "e"), ("file", .value, "f"), ("line-length", .value, "l"),
        ("null-data", .nothing, "z"), ("zero-terminated", .nothing, "z"), ("quiet", .nothing, "n"),
        ("posix", .nothing, "posix"), ("silent", .nothing, "n"), ("sandbox", .nothing, "sandbox"),
        ("separate", .nothing, "s"), ("unbuffered", .nothing, "u"), ("follow-symlinks", .nothing, "follow")] } args
  let mut parts : List String := []
  for (o, value) in g.options do
    if o = "e" then parts := parts ++ [value]
    else if o = "f" then
      match ← readOperand value with
      | .ok text => parts := parts ++ [(Octets.before? "\n" text).getD text]
      | .error f => fail 4 s!"couldn't open file {value}: {f.text}"
  let (text, files) ←
    if !parts.isEmpty then pure ("\n".intercalate parts, g.operands)
    else
      match g.operands with
      | [] => do
        tell "Usage: sed [OPTION]... \x7bscript-only-if-no-other-script\x7d [input-file]..."
        quit 1
      | script :: files => pure (script, files)
  let script ←
    match Script.ofText (g.has "E" || g.has "r") (g.has "posix") text with
    | .ok s => pure s
    | .error (m, position) => fail 1 s!"-e expression #1, char {position}: {m}"
  match (usedLabels script).find? fun l => (script.labels.lookup l).isNone with
  | some l => fail 4 s!"can't find label for jump to \x60{l}'"
  | none => pure ()
  let mut outputs : List (String × Output) := []
  for path in writtenPaths script do
    if path != "/dev/stdout" && (outputs.lookup path).isNone then
      let t ← getThe Task
      match t.machine.openPath t.process path .write with
      | .ok (opening, m) =>
        setMachine m
        outputs := outputs ++ [(path, { opening : Output })]
      | .error f => fail 4 s!"couldn't open file {path}: {f.text}"
  let replaces := g.has "i"
  let manner : Sed.Manner :=
    { isSilent := g.has "n" || script.isSilent, isSeparate := g.has "s" || replaces
      replaces? := if replaces then some ((g.value? "i").getD "") else none
      ending := if g.has "z" then '\x00' else '\n'
      width := ((g.value? "l").bind Numeral.decimal?).getD 70 }
  let e : Editor := { script, manner, files := orInput files, outputs }
  let whole : Edit Unit := do
    Edit.runLines (Nat.pow 2 24) true
    Edit.finishFile
  let ((), e) ← whole.run e
  return e.code

end Unnest.Host.Utility
