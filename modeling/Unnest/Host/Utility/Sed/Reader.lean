import Unnest.Host.Escape
import Unnest.Host.Utility.Sed.Basic

/-!
# The text of an editing script

A script is read from left to right.  Steps are separated by semicolons and ends of
lines; texts, the names of files and comments go on to the end of the line.
-/

namespace Unnest.Host.Sed

/-- A script that is being read. -/
structure Reading where
  rest : List Char
  /-- How many characters were read. -/
  position : Nat := 0
  isExtended : Bool := false
  isPosix : Bool := false
  script : Script := {}
  /-- The steps whose braces are open, from the last on. -/
  open_ : List Nat := []

/-- A reader of scripts, which can find a mistake. -/
abbrev Reader := ExceptT String (StateM Reading)

namespace Reader

def peek? : Reader (Option Char) := return (← get).rest.head?

def skip (count : Nat) : Reader Unit :=
  modify fun s => { s with rest := s.rest.drop count, position := s.position + count }

/-- Takes the next character. -/
def next? : Reader (Option Char) := do
  let c? ← peek?
  if c?.isSome then skip 1
  return c?

/-- Takes characters as long as they are of a kind. -/
def takeWhile (isWanted : Char → Bool) : Reader (List Char) := do
  let cs := (← get).rest.takeWhile isWanted
  skip cs.length
  return cs

def skipBlanks : Reader Unit := do
  let _ ← takeWhile Octets.isBlank

def skipSpaces : Reader Unit := do
  let _ ← takeWhile Octets.isSpace

/-- A number, if digits are next. -/
def number? : Reader (Option Nat) := do
  let digits ← takeWhile Char.isDigit
  return Numeral.inBase? 10 digits

/-- The rest of the line. -/
def restOfLine : Reader String := do
  let cs ← takeWhile (· != '\n')
  return String.ofList cs

/-- The text up to a delimiter.  In an expression an escaped `n` is the end of a line;
an escaped delimiter is the delimiter. -/
def delimited? (delimiter : Char) (isExpression : Bool) : (steps : Nat) → Reader (Option (List Char))
  | 0 => return none
  | steps + 1 => do
    match ← next? with
    | none => return none
    | some c =>
      if c = delimiter then return some []
      else if c = '\n' then return none
      else if c = '\\' then
        match ← next? with
        | none => return none
        | some d =>
          let here :=
            if d = 'n' && isExpression then ['\n']
            else if d = '\n' then (if isExpression then ['\n'] else ['\\', '\n'])
            else if d = delimiter && !(d = '&' && !isExpression) then [d]
            else ['\\', d]
          return (← delimited? delimiter isExpression steps).map (here ++ ·)
      else return (← delimited? delimiter isExpression steps).map (c :: ·)

/-! ## Escapes -/

/-- The letters of escapes that stand for one octet. -/
def octets : List (Char × Char) :=
  [('a', '\x07'), ('f', '\x0c'), ('n', '\n'), ('r', '\r'), ('t', '\t'), ('v', '\x0b')]

/-- An octet that an escape stands for, and what follows. -/
def octet? (cs : List Char) : Option (Char × List Char) :=
  match cs with
  | 'c' :: c :: rest => some (Char.ofNat (c.toUpper.toNat ^^^ 64), rest)
  | 'd' :: rest => (EscapeRules.number? 10 3 rest).map fun (n, rest) => (EscapeRules.octet n, rest)
  | 'o' :: rest => (EscapeRules.number? 8 3 rest).map fun (n, rest) => (EscapeRules.octet n, rest)
  | 'x' :: rest => (EscapeRules.number? 16 2 rest).map fun (n, rest) => (EscapeRules.octet n, rest)
  | c :: rest => (octets.lookup c).map (·, rest)
  | [] => none

/-- An expression in which escapes of octets are read. -/
def expressionText : (steps : Nat) → List Char → List Char
  | 0, cs => cs
  | _, [] => []
  | steps + 1, '\\' :: cs =>
    match octet? cs with
    | some (c, rest) =>
      (if "*.[]^$\\/+?(){}|".toList.contains c then ['\\', c] else [c]) ++ expressionText steps rest
    | none =>
      match cs with
      | c :: rest => '\\' :: c :: expressionText steps rest
      | [] => ['\\']
  | steps + 1, c :: cs => c :: expressionText steps cs

/-- Adds a character to the parts of a replacement. -/
def addChar (c : Char) : List Part → List Part
  | .text s :: parts => .text (c.toString ++ s) :: parts
  | parts => .text c.toString :: parts

/-- The parts of a replacement. -/
def replacementParts : (steps : Nat) → List Char → List Part
  | 0, _ => []
  | _, [] => []
  | steps + 1, '&' :: cs => .group 0 :: replacementParts steps cs
  | steps + 1, '\\' :: c :: cs =>
    if c.isDigit then .group (c.toNat - '0'.toNat) :: replacementParts steps cs
    else if "LUEul".toList.contains c then .letterCase c :: replacementParts steps cs
    else
      match octet? (c :: cs) with
      | some (o, rest) => addChar o (replacementParts steps rest)
      | none => addChar c (replacementParts steps cs)
  | steps + 1, c :: cs => addChar c (replacementParts steps cs)

/-- A text of lines in which escapes are read. -/
def unescapedText : (steps : Nat) → List Char → List Char
  | 0, _ => []
  | _, [] => []
  | steps + 1, '\\' :: cs =>
    match octet? cs with
    | some (c, rest) => c :: unescapedText steps rest
    | none =>
      match cs with
      | c :: rest => c :: unescapedText steps rest
      | [] => []
  | steps + 1, c :: cs => c :: unescapedText steps cs

/-! ## Expressions and addresses -/

/-- The largest number of a group that a replacement asks for. -/
def largestGroup (parts : List Part) : Nat :=
  parts.foldl (fun n p =>
    match p with
    | .group m => max n m
    | _ => n) 0

/-- How many groups an expression has. -/
def groupCount : Regex → Nat
  | .sequence a b | .either a b => groupCount a + groupCount b
  | .repeated a _ _ => groupCount a
  | .group _ a => groupCount a + 1
  | _ => 0

/-- Reads an expression from its text. -/
def expression (text : List Char) (ignoresCase isMultiline : Bool) : Reader Expression := do
  if text.isEmpty then return { regex? := none, ignoresCase, isMultiline }
  let isExtended := (← get).isExtended
  let manner : Regex.Manner := { isExtended, leading := if isExtended then .mistake else .character }
  match Regex.ofText manner (String.ofList (expressionText (text.length + 1) text)) with
  | .ok r => return { regex? := some r, ignoresCase, isMultiline }
  | .error m => throw m.text

/-- Reads the flags behind an expression of an address. -/
def addressFlags : (steps : Nat) → (ignoresCase isMultiline : Bool) → Reader (Bool × Bool)
  | 0, i, m => return (i, m)
  | steps + 1, i, m => do
    match ← peek? with
    | some 'I' => do
      skip 1
      addressFlags steps true m
    | some 'M' => do
      skip 1
      addressFlags steps i true
    | _ => return (i, m)

/-- Reads an address, if there is one. -/
def address? : Reader (Option Address) := do
  let length := (← get).rest.length + 1
  let pattern (delimiter : Char) : Reader (Option Address) := do
    match ← delimited? delimiter true length with
    | none => throw "unterminated address regex"
    | some text => do
      let (i, m) ← addressFlags length false false
      return some (.pattern (← expression text i m))
  match ← peek? with
  | some '/' => do
    skip 1
    pattern '/'
  | some '\\' => do
    skip 1
    match ← next? with
    | some c => pattern c
    | none => throw "unexpected end of script"
  | some '$' => do
    skip 1
    return some .last
  | some c =>
    if c.isDigit then
      let n := (← number?).getD 0
      if (← peek?) == some '~' then
        skip 1
        let step := (← number?).getD 0
        return some (if step = 0 then .line n else .steps n step)
      else return some (.line n)
    else return none
  | none => return none

/-- Reads the end of a range. -/
def stop? : Reader (Option Stop) := do
  match ← peek? with
  | some '+' => do
    skip 1
    match ← number? with
    | some n => return some (.count n)
    | none => throw "expected number"
  | some '~' => do
    skip 1
    match ← number? with
    | some n => return some (.multiple n)
    | none => throw "expected number"
  | _ => return (← address?).map .address

/-- Reads which lines a step is for. -/
def selector : Reader Selector := do
  let first? ← address?
  if first?.isSome then skipBlanks
  let stop? ←
    if first?.isSome && (← peek?) == some ',' then do
      skip 1
      skipBlanks
      match ← stop? with
      | some s => do
        skipBlanks
        pure (some s)
      | none => throw "unexpected \x60,'"
    else pure none
  match first?, stop? with
  | some (.line 0), some (.address (.pattern _)) => pure ()
  | some (.line 0), _ => throw "invalid usage of line address 0"
  | _, _ => pure ()
  let signs ← takeWhile fun c => c = '!' || Octets.isBlank c
  return { first?, stop?, isNegated := signs.contains '!' }

/-! ## Steps -/

/-- Reads up to the end of a step. -/
def endOfStep : Reader Unit := do
  skipBlanks
  match ← peek? with
  | none | some '}' | some '#' => return
  | some c => if c = ';' || c = '\n' then skip 1 else throw "extra characters after command"

/-- Reads the lines of a text: all lines that end in a backslash, and the next one. -/
def textLines : (steps : Nat) → Reader (List Char)
  | 0 => return []
  | steps + 1 => do
    match ← next? with
    | none | some '\n' => return []
    | some '\\' => do
      match ← next? with
      | none => return []
      | some c => return '\\' :: c :: (← textLines steps)
    | some c => return c :: (← textLines steps)

/-- Reads a text that follows a command: on its line, or behind a backslash on the lines
that follow. -/
def text : Reader String := do
  skipBlanks
  let length := (← get).rest.length + 1
  match ← peek? with
  | none => throw "expected \\ after \x60a', \x60c' or \x60i'"
  | some c => do
    if c = '\\' then
      skip 1
      let blanks := (← get).rest.takeWhile Octets.isBlank
      match (← get).rest.drop blanks.length with
      | [] => return ""
      | '\n' :: _ => skip (blanks.length + 1)
      | _ => pure ()
    else if (← get).isPosix then throw "expected \\ after \x60a', \x60c' or \x60i'"
    let cs ← textLines length
    return String.ofList (unescapedText (cs.length + 1) cs) ++ "\n"

/-- Reads the name of a label. -/
def label : Reader String := do
  skipBlanks
  let cs ← takeWhile fun c => !Octets.isSpace c && c != ';'
  return String.ofList cs

/-- Reads the name of a file. -/
def path : Reader String := do
  skipBlanks
  let name ← restOfLine
  if name = "" then throw "missing filename in r/R/w/W commands"
  return name

/-- Reads the flags of an exchange. -/
def substitutionFlags : (steps : Nat) → Substitution → Reader Substitution
  | 0, s => return s
  | steps + 1, s => do
    match ← peek? with
    | some 'g' => do
      skip 1
      if s.isGlobal then throw "multiple \x60g' options to \x60s' command"
      substitutionFlags steps { s with isGlobal := true }
    | some 'p' => do
      skip 1
      if s.prints then throw "multiple \x60p' options to \x60s' command"
      substitutionFlags steps { s with prints := true }
    | some 'i' | some 'I' => do
      skip 1
      substitutionFlags steps { s with expression := { s.expression with ignoresCase := true } }
    | some 'm' | some 'M' => do
      skip 1
      substitutionFlags steps { s with expression := { s.expression with isMultiline := true } }
    | some 'e' => do
      skip 1
      substitutionFlags steps s
    | some 'w' => do
      skip 1
      return { s with path? := some (← path) }
    | some c =>
      if c.isDigit then
        let n := (← number?).getD 0
        if n = 0 then throw "number option to \x60s' command may not be zero"
        substitutionFlags steps { s with number := n }
      else if c = '}' || c = '#' || c = ';' || Octets.isSpace c then return s
      else throw "unknown option to \x60s'"
    | none => return s

/-- Reads an exchange of matches. -/
def substitution : Reader Substitution := do
  let length := (← get).rest.length + 1
  let unterminated {α : Type} : Reader α := throw "unterminated \x60s' command"
  match ← next? with
  | none => unterminated
  | some delimiter =>
    if delimiter = '\n' || delimiter = '\\' then unterminated
    match ← delimited? delimiter true length with
    | none => unterminated
    | some pattern =>
      match ← delimited? delimiter false length with
      | none => unterminated
      | some new => do
        let replacement := replacementParts (new.length + 1) new
        let s ← substitutionFlags length
          { expression := { regex? := none }, replacement }
        let e ← expression pattern s.expression.ignoresCase s.expression.isMultiline
        match e.regex? with
        | some r =>
          let n := largestGroup replacement
          if groupCount r < n then throw s!"invalid reference \\{n} on \x60s' command's RHS"
        | none => pure ()
        return { s with expression := e }

/-- The characters of a list to exchange. -/
def exchangeList : List Char → List Char
  | '\\' :: '\\' :: cs => '\\' :: exchangeList cs
  | '\\' :: 'n' :: cs => '\n' :: exchangeList cs
  | '\\' :: '\n' :: cs => '\n' :: exchangeList cs
  | '\\' :: c :: cs =>
    match octets.lookup c with
    | some o => o :: exchangeList cs
    | none => '\\' :: c :: exchangeList cs
  | c :: cs => c :: exchangeList cs
  | [] => []

/-- Reads an exchange of characters. -/
def transliteration : Reader (List (Char × Char)) := do
  let length := (← get).rest.length + 1
  let unterminated {α : Type} : Reader α := throw "unterminated \x60y' command"
  match ← next? with
  | none => unterminated
  | some delimiter =>
    match ← delimited? delimiter true length with
    | none => unterminated
    | some old =>
      match ← delimited? delimiter true length with
      | none => unterminated
      | some new =>
        let a := exchangeList old
        let b := exchangeList new
        if a.length != b.length then throw "strings for \x60y' command are different lengths"
        return a.zip b

/-- Adds a step. -/
def addStep (selector : Selector) (action : Action) : Reader Unit :=
  modify fun s => { s with script := { s.script with steps := s.script.steps.push { selector, action } } }

/-- Reads what a step does. -/
def action (c : Char) : Reader Action := do
  let simple (a : Action) : Reader Action := do
    endOfStep
    return a
  match c with
  | '=' => simple .number
  | 'd' => simple .delete
  | 'D' => simple .deleteFirst
  | 'F' => simple .fileName
  | 'g' => simple (.recall false)
  | 'G' => simple (.recall true)
  | 'h' => simple (.keep false)
  | 'H' => simple (.keep true)
  | 'n' => simple .next
  | 'N' => simple .appendNext
  | 'p' => simple .print
  | 'P' => simple .printFirst
  | 'x' => simple .exchange
  | 'z' => simple .empty
  | 'a' => return .append (← text)
  | 'i' => return .insert (← text)
  | 'c' => return .change (← text)
  | 'b' | 't' | 'T' => do
    let name ← label
    endOfStep
    let target := if name = "" then none else some name
    return if c = 'b' then .branch target else if c = 't' then .branchIf target else .branchUnless target
  | 'q' | 'Q' | 'l' | 'L' => do
    skipBlanks
    let n? ← number?
    endOfStep
    return if c = 'l' || c = 'L' then .list n? else .quit (n?.getD 0) (c = 'Q')
  | 'r' => return .readFile (← path)
  | 'R' => return .readLine (← path)
  | 'w' => return .write (← path)
  | 'W' => return .writeFirst (← path)
  | 's' => do
    let s ← substitution
    if s.path?.isNone then endOfStep
    return .substitute s
  | 'y' => do
    let pairs ← transliteration
    endOfStep
    return .transliterate pairs
  | 'v' => do
    let _ ← restOfLine
    return .none
  | 'e' => do
    let _ ← restOfLine
    return .none
  | c => throw s!"unknown command: \x60{c}'"

/-- Reads the steps that are left. -/
def steps : (count : Nat) → Reader Unit
  | 0 => return
  | count + 1 => do
    let _ ← takeWhile fun c => Octets.isSpace c || c = ';'
    match ← peek? with
    | none => return
    | some '#' => do
      let _ ← restOfLine
      steps count
    | some _ => do
      let s ← selector
      match ← next? with
      | none => throw "missing command"
      | some '{' => do
        let n := (← get).script.steps.size
        addStep s (.enter 0)
        modify fun r => { r with open_ := n :: r.open_ }
        steps count
      | some '}' => do
        if s.first?.isSome then throw "\x7d doesn't want any addresses"
        match (← get).open_ with
        | [] => throw "unexpected \x60\x7d'"
        | n :: others => do
          modify fun r =>
            let stop := r.script.steps.size
            { r with
              open_ := others
              script := { r.script with
                steps := r.script.steps.modify n fun st => { st with action := .enter stop } } }
          endOfStep
          steps count
      | some ':' => do
        if s.first?.isSome then throw ": doesn't want any addresses"
        let name ← label
        if name = "" then throw "\":\" lacks a label"
        modify fun r =>
          { r with script := { r.script with labels := (name, r.script.steps.size) :: r.script.labels } }
        steps count
      | some c => do
        let a ← action c
        addStep s a
        steps count

/-- Reads a whole script. -/
def whole : Reader Unit := do
  let s ← get
  match s.rest with
  | '#' :: 'n' :: '\n' :: _ | ['#', 'n'] =>
    modify fun r => { r with script := { r.script with isSilent := true } }
  | _ => pure ()
  steps (s.rest.length + 1)
  if !(← get).open_.isEmpty then
    modify fun r => { r with position := 0 }
    throw "unmatched \x60\x7b'"

end Reader

/-- Reads a script; where that fails, what is wrong and how far it was read. -/
def Script.ofText (isExtended isPosix : Bool) (text : String) : Except (String × Nat) Script :=
  match Reader.whole.run { rest := text.toList, isExtended, isPosix } with
  | (.ok (), r) => .ok r.script
  | (.error m, r) => .error (m, r.position)

end Unnest.Host.Sed
