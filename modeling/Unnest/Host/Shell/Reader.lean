import Unnest.Host.Shell.Source

/-!
# Reading commands

A script is read one complete command at a time, which ends with its line: what stands
on later lines is not looked at before the command was run.  Commands inside each other
are read by readers inside each other, to some depth.
-/

namespace Unnest.Host.Shell

/-! ## Tokens -/

/-- The signs of a script, longer ones before those that they start with. -/
def signs (isRich : Bool) : List String :=
  (if isRich then [";;&", "<<<", "&>>", ";&", "&>", "|&"] else []) ++
    ["<<-", "&&", "||", ";;", "<<", ">>", "<&", ">&", "<>", ">|", "&", "|", ";", "<", ">", "(", ")"]

/-- The signs that change a descriptor. -/
def redirectionSigns : List String :=
  ["<", ">", ">>", "<<", "<<-", "<&", ">&", "<>", ">|", "<<<", "&>", "&>>"]

/-- Passes over blanks, ends of lines that are hidden, and comments. -/
def skipBlanks : (steps : Nat) → Read Unit
  | 0 => return
  | steps + 1 => do
    match ← Read.rest with
    | ' ' :: _ | '\t' :: _ => do
      Read.skip 1
      skipBlanks steps
    | '\\' :: '\n' :: _ => do
      Read.skip 2
      skipBlanks steps
    | '#' :: cs => do
      Read.skip (1 + (cs.takeWhile (· != '\n')).length)
    | _ => return

/-- Reads the lines of a document up to its delimiter: the text, and what follows. -/
def documentLines (d : PendingDocument) : (steps : Nat) → List Char → List Char × List Char
  | 0, cs => ([], cs)
  | _, [] => ([], [])
  | steps + 1, cs =>
    let line := cs.takeWhile (· != '\n')
    let after := cs.drop (line.length + 1)
    let line := if d.stripsTabs then line.dropWhile (· == '\t') else line
    if String.ofList line = d.delimiter then ([], after)
    else
      let (text, rest) := documentLines d steps after
      let isEnded := !((cs.drop (cs.takeWhile (· != '\n')).length).isEmpty)
      (line ++ (if isEnded then ['\n'] else []) ++ text, rest)

/-- Reads the documents that the ended line asked for. -/
def readDocuments (inner : Inner) : List PendingDocument → Read Unit
  | [] => modify fun s => { s with pending := [] }
  | d :: ds => do
    let cs ← Read.rest
    let (text, rest) := documentLines d (cs.length + 1) cs
    let w ← if d.isLiteral then pure [Piece.quoted (String.ofList text)]
      else Read.within text (inner.pieces Manner.document)
    modify fun s => { s with documents := s.documents.set! d.number w }
    Read.skip (cs.length - rest.length)
    readDocuments inner ds

/-- Reads a token. -/
def readToken (inner : Inner) : Read Token := do
  skipBlanks ((← Read.rest).length + 1)
  let isRich ← Read.isRich
  let cs ← Read.rest
  match cs with
  | [] => do
    let s ← get
    readDocuments inner s.pending
    return .finish
  | '\n' :: _ => do
    Read.skip 1
    let s ← get
    readDocuments inner s.pending
    return .sign "\n"
  | c :: _ =>
    let isPipe := isRich && (c = '<' || c = '>') && cs[1]? == some '('
    match (signs isRich).find? fun s => s.toList.isPrefixOf cs with
    | some sign =>
      if isPipe then
        -- the path of a pipe, and what is written together with it
        Read.skip 2
        let script ← readParenthesized inner
        let w ← inner.pieces (Manner.bare isRich)
        return .word (.pipe script (c == '<') :: w)
      else do
        Read.skip sign.length
        return .sign sign
    | none =>
      let digits := cs.takeWhile Char.isDigit
      let after := cs.drop digits.length
      let isBefore (cs : List Char) : Bool := cs.head?.any fun c => c = '<' || c = '>'
      if !digits.isEmpty && isBefore after then do
        Read.skip digits.length
        return .descriptor ((Numeral.inBase? 10 digits).getD 0)
      else
        let name := (cs.drop 1).takeWhile isNameRest
        let behind := cs.drop (name.length + 1)
        if isRich && c = '\x7b' && behind.head? == some '\x7d' && isBefore behind.tail &&
            isName (String.ofList name) then do
          Read.skip (name.length + 2)
          return .named (String.ofList name)
        else return .word (← inner.pieces (Manner.bare isRich))

/-- The next token, which stays. -/
def peek (inner : Inner) : Read Token := do
  let s ← get
  match s.ahead? with
  | some (token, _, _) => return token
  | none =>
    let token ← readToken inner
    let t ← get
    set { t with rest := s.rest, line := s.line, ahead? := some (token, t.rest, t.line) }
    return token

/-- Takes the token that was looked at. -/
def take : Read Unit :=
  modify fun s =>
    match s.ahead? with
    | some (_, rest, line) => { s with rest, line, ahead? := none }
    | none => s

/-- Forgets what the next token is; it is read again in another way. -/
def untake : Read Unit := modify fun s => { s with ahead? := none }

/-- A token in a complaint. -/
def Token.describe (reserved : List String) : Token → String
  | .finish => "end of file"
  | .sign "\n" => "newline"
  | .sign s => if redirectionSigns.contains s then "redirection" else "\"" ++ s ++ "\""
  | .descriptor _ | .named _ => "redirection"
  | .word w =>
    match w.literal? with
    | some s => if reserved.contains s then "\"" ++ s ++ "\"" else "word"
    | none => "word"

/-- The words that mean something where a command starts. -/
def reservedWords (isRich : Bool) : List String :=
  ["!", "case", "do", "done", "elif", "else", "esac", "fi", "for", "if", "in", "then", "until",
    "while", "\x7b", "\x7d"] ++ (if isRich then ["[[", "]]", "function", "select", "time"] else [])

/-- Complains about the next token. -/
def unexpected {α : Type} (inner : Inner) (expected? : Option String) : Read α := do
  let token ← peek inner
  throw (.unexpected (token.describe (reservedWords (← Read.isRich))) expected?)

/-- Whether the next token is a sign. -/
def atSign (inner : Inner) (sign : String) : Read Bool := do
  match ← peek inner with
  | .sign s => return s == sign
  | _ => return false

/-- Whether the next token is a word without quotes. -/
def atWord (inner : Inner) (word : String) : Read Bool := do
  match ← peek inner with
  | .word w => return w.literal? == some word
  | _ => return false

/-- Takes a sign if it is next. -/
def takeSign (inner : Inner) (sign : String) : Read Bool := do
  let isNext ← atSign inner sign
  if isNext then take
  return isNext

/-- Takes a word if it is next. -/
def takeWord (inner : Inner) (word : String) : Read Bool := do
  let isNext ← atWord inner word
  if isNext then take
  return isNext

/-- Takes a word that has to be next. -/
def needWord (inner : Inner) (word : String) : Read Unit := do
  if !(← takeWord inner word) then unexpected inner (some word)

/-- Passes over ends of lines. -/
def skipLines (inner : Inner) : (steps : Nat) → Read Unit
  | 0 => return
  | steps + 1 => do
    if ← takeSign inner "\n" then skipLines inner steps

/-- How many steps a reader can take at most. -/
def steps : Read Nat := return (← get).rest.length + 2

def newLines (inner : Inner) : Read Unit := do skipLines inner (← steps)

/-! ## Redirections -/

/-- The delimiter of a document: its text, and whether a part of it is quoted. -/
def delimiter : Word → String × Bool
  | [] => ("", false)
  | p :: ps =>
    let (text, isQuoted) := delimiter ps
    match p with
    | .text s => (s ++ text, isQuoted)
    | .quoted s => (s ++ text, true)
    | .parameter name .. => ("$" ++ name ++ text, isQuoted)
    | _ => (text, isQuoted)

/-- Reads a redirection if there is one. -/
def readRedirection? (inner : Inner) : Read (Option Redirection) := do
  let first ← peek inner
  let (descriptor?, name?) :=
    match first with
    | .descriptor n => (some n, none)
    | .named name => (none, some name)
    | _ => (none, none)
  if descriptor?.isSome || name?.isSome then take
  match ← peek inner with
  | .sign sign =>
    if !redirectionSigns.contains sign then return none
    take
    match ← peek inner with
    | .word w =>
      take
      let kind ←
        match sign with
        | "<" => pure RedirectionKind.input
        | ">" => pure .output
        | ">>" => pure .append
        | ">|" => pure .clobber
        | "<>" => pure .readWrite
        | "<&" => pure .duplicateInput
        | ">&" => pure .duplicateOutput
        | "<<<" => pure .line
        | "&>" => pure .bothOutput
        | "&>>" => pure .bothAppend
        | _ => do
          let s ← get
          let number := s.documents.size
          let (text, isLiteral) := delimiter w
          let pending : PendingDocument :=
            { number, delimiter := text, isLiteral, stripsTabs := sign == "<<-" }
          set { s with documents := s.documents.push [], pending := s.pending ++ [pending] }
          pure (.document number)
      return some { descriptor?, name?, kind, target := w }
    | _ => unexpected inner none
  | _ => return none

/-- Reads redirections, as many as there are. -/
def readRedirections (inner : Inner) : (steps : Nat) → Read (List Redirection)
  | 0 => return []
  | steps + 1 => do
    match ← readRedirection? inner with
    | some r => return r :: (← readRedirections inner steps)
    | none => return []

/-! ## Simple commands -/

/-- The name, the sign and the start of the value of an assignment. -/
def assignmentStart? (isRich : Bool) (cs : List Char) :
    Option (String × Option String × Bool × List Char) :=
  let name := cs.takeWhile isNameRest
  let rest := cs.drop name.length
  if !isName (String.ofList name) then none
  else
    let (index?, rest) :=
      match rest with
      | '[' :: inside =>
        if isRich && inside.contains ']' then
          let index := inside.takeWhile (· != ']')
          (some (String.ofList index), inside.drop (index.length + 1))
        else (none, rest)
      | rest => (none, rest)
    match rest with
    | '=' :: value => some (String.ofList name, index?, false, value)
    | '+' :: '=' :: value => if isRich then some (String.ofList name, index?, true, value) else none
    | _ => none

/-- The assignment that a word is, if it is one. -/
def assignment? (isRich : Bool) (w : Word) : Option Assignment :=
  match w with
  | .text s :: ps =>
    match assignmentStart? isRich s.toList with
    | some (name, index?, isAppended, value) =>
      some
        { name, subscript := index?.map fun i => [.text i], isAppended
          value := if value.isEmpty then ps else .text (String.ofList value) :: ps }
    | none =>
      -- a subscript of which a part is expanded
      match isRich, s.toList.getLast?, ps with
      | true, some '[', p :: .text t :: ps =>
        let name := String.ofList (s.toList.dropLast)
        match isName name, t.toList with
        | true, ']' :: '=' :: value =>
          some { name, subscript := some [p], value := if value.isEmpty then ps else .text (String.ofList value) :: ps }
        | true, ']' :: '+' :: '=' :: value =>
          some { name, subscript := some [p], isAppended := true, value := .text (String.ofList value) :: ps }
        | _, _ => none
      | _, _, _ => none
  | _ => none

/-- Reads the words of an array up to the parenthesis that closes it. -/
def readElements (inner : Inner) : (steps : Nat) → Read (List Word)
  | 0 => throw .tooDeep
  | steps + 1 => do
    newLines inner
    match ← peek inner with
    | .word w => do
      take
      return w :: (← readElements inner steps)
    | .sign ")" => do
      take
      return []
    | _ => unexpected inner none

/-- Reads the parts of a simple command, in order. -/
def readSimple (inner : Inner) :
    (steps : Nat) → List Assignment → List Word → List Redirection →
      Read (List Assignment × List Word × List Redirection)
  | 0, as, ws, rs => return (as.reverse, ws.reverse, rs.reverse)
  | steps + 1, as, ws, rs => do
    match ← readRedirection? inner with
    | some r => readSimple inner steps as ws (r :: rs)
    | none =>
      match ← peek inner with
      | .word w => do
        take
        let isRich ← Read.isRich
        -- the elements of an array follow the sign at once
        let endsOpen : Bool :=
          match w.getLast? with
          | some (.text s) => s.endsWith "=" && (assignment? isRich w).isSome
          | _ => false
        let w ← if isRich && endsOpen && (← Read.rest).head? == some '(' then do
            Read.skip 1
            let items ← readElements inner (← Shell.steps)
            pure (w ++ [Piece.elements items])
          else pure w
        match ws, assignment? isRich w with
        | [], some a => readSimple inner steps (a :: as) ws rs
        | _, _ => readSimple inner steps as (w :: ws) rs
      | _ => return (as.reverse, ws.reverse, rs.reverse)

/-! ## Compound commands -/

/-- A list of commands that must not be empty. -/
def body (inner : Inner) : Read Command := do
  match ← inner.commands with
  | .sequence [] => unexpected inner none
  | c => return c

/-- The branches of a conditional behind its first word. -/
def readBranches (inner : Inner) :
    (steps : Nat) → Read (List (Command × Command) × Option Command)
  | 0 => throw .tooDeep
  | steps + 1 => do
    let condition ← body inner
    needWord inner "then"
    let c ← body inner
    if ← takeWord inner "elif" then
      let (branches, otherwise) ← readBranches inner steps
      return ((condition, c) :: branches, otherwise)
    else if ← takeWord inner "else" then
      let otherwise ← body inner
      needWord inner "fi"
      return ([(condition, c)], some otherwise)
    else
      needWord inner "fi"
      return ([(condition, c)], none)

/-- The body of a loop, between its words. -/
def readLoopBody (inner : Inner) : Read Command := do
  if (← Read.isRich) && (← takeWord inner "\x7b") then
    let c ← body inner
    needWord inner "\x7d"
    return c
  needWord inner "do"
  let c ← body inner
  needWord inner "done"
  return c

/-- The words that a loop goes through, up to the end of the line. -/
def readLoopWords (inner : Inner) : (steps : Nat) → Read (List Word)
  | 0 => return []
  | steps + 1 => do
    match ← peek inner with
    | .word w => do
      take
      return w :: (← readLoopWords inner steps)
    | .sign ";" | .sign "\n" => do
      take
      return []
    | _ => unexpected inner none

/-- The parts of a counting loop, between double parentheses. -/
def readCounting (inner : Inner) : Read (Word × Word × Word) := do
  let part (last : Bool) : Read Word := do
    if last then
      match ← readExpression inner ((← Read.rest).length + 1) 0 [] with
      | some w => return w
      | none => unexpected inner none
    else
      let w ← inner.pieces (arithmeticManner true fun cs => cs.head? == some ';')
      Read.skip 1
      return w
  return (← part false, ← part false, ← part true)

/-- A loop behind its first word. -/
def readFor (inner : Inner) : Read Command := do
  let line := (← get).line
  if (← Read.isRich) && (← atSign inner "(") then
    take
    let isCounting := (← Read.rest).head? == some '('
    if isCounting then
      Read.skip 1
      let (first, condition, step) ← readCounting inner
      let _ ← takeSign inner ";"
      newLines inner
      return .forCount line first condition step (← readLoopBody inner)
  match ← peek inner with
  | .word w => do
    let name := w.literal?.getD ""
    if !isName name then throw (.badLoopName name)
    take
    newLines inner
    if ← takeWord inner "in" then
      let words ← readLoopWords inner (← steps)
      newLines inner
      return .forEach line name (some words) (← readLoopBody inner)
    else
      let _ ← takeSign inner ";"
      newLines inner
      return .forEach line name none (← readLoopBody inner)
  | _ => throw (.badLoopName "")

/-- The patterns of a branch, up to the parenthesis behind them. -/
def readPatterns (inner : Inner) : (steps : Nat) → Read (List Word)
  | 0 => throw .tooDeep
  | steps + 1 => do
    match ← peek inner with
    | .word w => do
      take
      if ← takeSign inner "|" then return w :: (← readPatterns inner steps)
      else if ← takeSign inner ")" then return [w]
      else unexpected inner (some ")")
    | _ => unexpected inner (some ")")

/-- The branches of a choice. -/
def readChoices (inner : Inner) :
    (steps : Nat) → Read (List (List Word × Command × Ending))
  | 0 => throw .tooDeep
  | steps + 1 => do
    newLines inner
    if ← takeWord inner "esac" then return []
    let _ ← takeSign inner "("
    let patterns ← readPatterns inner (← Shell.steps)
    let c ← inner.commands
    if ← takeSign inner ";;" then return (patterns, c, .leave) :: (← readChoices inner steps)
    else if ← takeSign inner ";&" then
      return (patterns, c, .fallThrough) :: (← readChoices inner steps)
    else if ← takeSign inner ";;&" then return (patterns, c, .goOn) :: (← readChoices inner steps)
    else if ← takeWord inner "esac" then return [(patterns, c, .leave)]
    else unexpected inner (some ";;")

/-- A choice behind its first word. -/
def readCase (inner : Inner) : Read Command := do
  let line := (← get).line
  match ← peek inner with
  | .word w => do
    take
    newLines inner
    needWord inner "in"
    return .choice line w (← readChoices inner (← steps))
  | _ => unexpected inner none

/-! ## Conditions between double brackets -/

/-- The operators before one word. -/
def testUnary : List String :=
  ["-a", "-b", "-c", "-d", "-e", "-f", "-g", "-G", "-h", "-k", "-L", "-n", "-N", "-o", "-O", "-p",
    "-r", "-R", "-s", "-S", "-t", "-u", "-v", "-w", "-x", "-z"]

/-- The operators between two words that are words themselves. -/
def testBinary : List String :=
  ["=", "==", "!=", "=~", "-eq", "-ne", "-lt", "-le", "-gt", "-ge", "-nt", "-ot", "-ef"]

/-- Where the right side of a match ends: at a blank outside of parentheses. -/
def matchManner : Manner :=
  { isQuoted := false, ends := fun cs => cs.head?.any fun c => c = ' ' || c = '\t' || c = '\n'
    hasSingle := true, hasDouble := true }

/-- A word between double brackets. -/
def testWord (inner : Inner) : Read Word := do
  match ← peek inner with
  | .word w => do
    take
    return w
  | _ => unexpected inner none

/-- Reads a condition up to a connective. -/
def readTestPart (inner : Inner) (whole : Read TestExpression) : (steps : Nat) → Read TestExpression
  | 0 => throw .tooDeep
  | steps + 1 => do
    newLines inner
    if ← takeWord inner "!" then return .not (← readTestPart inner whole steps)
    if ← takeSign inner "(" then
      let e ← whole
      newLines inner
      if ← takeSign inner ")" then return e else unexpected inner (some ")")
    let w ← testWord inner
    match ← peek inner with
    | .word o => do
      let operator := o.literal?.getD ""
      if testBinary.contains operator then
        take
        if operator == "=~" then
          skipBlanks (← Shell.steps)
          untake
          return .binary w operator (← inner.pieces matchManner)
        else return .binary w operator (← testWord inner)
      else if operator != "]]" && testUnary.contains (w.literal?.getD "") then
        take
        return .unary (w.literal?.getD "") o
      else return .word w
    | .sign "<" => do
      take
      return .binary w "<" (← testWord inner)
    | .sign ">" => do
      take
      return .binary w ">" (← testWord inner)
    | _ => return .word w

/-- Reads conditions that all have to hold. -/
def readTestAnd (inner : Inner) (whole : Read TestExpression) : (steps : Nat) → Read TestExpression
  | 0 => throw .tooDeep
  | steps + 1 => do
    let e ← readTestPart inner whole (← Shell.steps)
    newLines inner
    if ← takeSign inner "&&" then return .and e (← readTestAnd inner whole steps) else return e

/-- Reads alternatives of conditions. -/
def readTestOr (inner : Inner) (whole : Read TestExpression) : (steps : Nat) → Read TestExpression
  | 0 => throw .tooDeep
  | steps + 1 => do
    let e ← readTestAnd inner whole (← Shell.steps)
    if ← takeSign inner "||" then return .or e (← readTestOr inner whole steps) else return e

/-- Reads conditions inside each other. -/
def readTest (inner : Inner) : (depth : Nat) → Read TestExpression
  | 0 => throw .tooDeep
  | depth + 1 => do readTestOr inner (readTest inner depth) (← steps)

/-! ## Commands -/

/-- The name of a function that is defined by a word and parentheses. -/
def functionName (inner : Inner) (isRich : Bool) (w : Word) : Read String := do
  match w.literal? with
  | some name => if isRich || isName name then return name else throw (.badFunctionName name)
  | none => if isRich then unexpected inner none else throw (.badFunctionName "")

/-- A command that ends what it starts with, or a simple one. -/
def readCommand (inner : Inner) (command : Read Command) : Read Command := do
  let isRich ← Read.isRich
  let line := (← get).line
  let compound? : Read (Option Command) := do
    match ← peek inner with
    | .sign "(" => do
      take
      if isRich && (← Read.rest).head? == some '(' then
        let s ← get
        Read.skip 1
        match ← readExpression inner (s.rest.length + 1) 0 [] with
        | some w => return some (.arithmetic line w)
        | none => set s
      let c ← body inner
      if ← takeSign inner ")" then return some (.subshell c) else unexpected inner (some ")")
    | .word w =>
      match w.literal? with
      | some "\x7b" => do
        take
        let c ← body inner
        needWord inner "\x7d"
        return some (.group c)
      | some "if" => do
        take
        let (branches, otherwise) ← readBranches inner (← steps)
        return some (.conditional branches otherwise)
      | some "while" => do
        take
        let condition ← body inner
        return some (.loop false condition (← readLoopBody inner))
      | some "until" => do
        take
        let condition ← body inner
        return some (.loop true condition (← readLoopBody inner))
      | some "for" => do
        take
        return some (← readFor inner)
      | some "case" => do
        take
        return some (← readCase inner)
      | some "[[" => do
        if !isRich then return none
        take
        let e ← readTest inner 64
        newLines inner
        if ← takeWord inner "]]" then return some (.test line e) else unexpected inner none
      | some "function" => do
        if !isRich then return none
        take
        let w ← testWord inner
        let name ← functionName inner isRich w
        if ← takeSign inner "(" then
          if !(← takeSign inner ")") then unexpected inner (some ")")
        newLines inner
        return some (.function name (← command))
      | some word => do
        let closing := ["!", "do", "done", "elif", "else", "esac", "fi", "then", "\x7d"]
        if closing.contains word then unexpected inner none else return none
      | none => return none
    | _ => return none
  match ← compound? with
  | some (.function name c) => return .function name c
  | some c =>
    match ← readRedirections inner (← steps) with
    | [] => return c
    | rs => return .redirected c rs
  | none =>
    let (as, ws, rs) ← readSimple inner (← steps) [] [] []
    match as, ws, rs, ← atSign inner "(" with
    | [], [w], [], true =>
      take
      if !(← takeSign inner ")") then unexpected inner (some ")")
      let name ← functionName inner isRich w
      newLines inner
      return .function name (← command)
    | [], [], [], _ => unexpected inner none
    | as, ws, rs, _ => return .simple line as ws rs

/-- Replaces the name of the next command by what it is an alias for. -/
def readAlias (inner : Inner) : (steps : Nat) → Read Unit
  | 0 => return
  | steps + 1 => do
    match ← peek inner with
    | .word w =>
      let s ← get
      match w.literal?, s.ahead? with
      | some name, some (_, after, line) =>
        match s.aliases.lookup name with
        | some text =>
          if s.usedAliases.contains name then return
          set { s with
            rest := text.toList ++ ' ' :: after, line, ahead? := none
            usedAliases := name :: s.usedAliases }
          readAlias inner steps
        | none => return
      | _, _ => return
    | _ => return

/-- Commands joined by pipes. -/
def readPipeline (inner : Inner) (command : Read Command) :
    (steps : Nat) → Read (List Command)
  | 0 => throw .tooDeep
  | steps + 1 => do
    modify fun s => { s with usedAliases := [] }
    readAlias inner 64
    let c ← command
    if ← takeSign inner "|" then
      newLines inner
      return c :: (← readPipeline inner command steps)
    else if ← takeSign inner "|&" then
      newLines inner
      let both : Redirection :=
        { descriptor? := some 2, kind := .duplicateOutput, target := [.text "1"] }
      return .redirected c [both] :: (← readPipeline inner command steps)
    else return [c]

/-- A pipeline with its negations.  The plain shell reads one of them at most. -/
def readNegated (inner : Inner) (command : Read Command) : (steps : Nat) → Read Command
  | 0 => throw .tooDeep
  | steps + 1 => do
    if ← takeWord inner "!" then
      let negated : Read Command := do
        if ← Read.isRich then readNegated inner command steps
        else
          match ← readPipeline inner command (← Shell.steps) with
          | [c] => return c
          | cs => return .pipeline false cs
      match ← negated with
      | .pipeline isNegated cs => return .pipeline (!isNegated) cs
      | c => return .pipeline true [c]
    else if (← Read.isRich) && (← takeWord inner "time") then
      let _ ← takeWord inner "-p"
      readNegated inner command steps
    else
      match ← readPipeline inner command (← Shell.steps) with
      | [c] => return c
      | cs => return .pipeline false cs

/-- Pipelines of which the later ones depend on how the earlier ones ended. -/
def readAndOr (inner : Inner) (command : Read Command) : (steps : Nat) → Command → Read Command
  | 0, c => return c
  | steps + 1, c => do
    if ← takeSign inner "&&" then
      newLines inner
      let d ← readNegated inner command (← Shell.steps)
      readAndOr inner command steps (.both c d)
    else if ← takeSign inner "||" then
      newLines inner
      let d ← readNegated inner command (← Shell.steps)
      readAndOr inner command steps (.either c d)
    else return c

/-- A command and what depends on it. -/
def readList (inner : Inner) (command : Read Command) : Read Command := do
  let c ← readNegated inner command (← steps)
  readAndOr inner command (← steps) c

/-- Whether the next token ends a list of commands. -/
def atEnd (inner : Inner) : Read Bool := do
  match ← peek inner with
  | .finish => return true
  | .sign s => return [")", ";;", ";&", ";;&"].contains s
  | .word w =>
    return ["do", "done", "elif", "else", "esac", "fi", "then", "\x7d"].contains (w.literal?.getD "")
  | _ => return false

/-- Commands one after the other, on several lines. -/
def readCommands (inner : Inner) (command : Read Command) : (steps : Nat) → Read (List Command)
  | 0 => throw .tooDeep
  | steps + 1 => do
    newLines inner
    if ← atEnd inner then return []
    let c ← readList inner command
    if ← takeSign inner "&" then return .background c :: (← readCommands inner command steps)
    else if ← takeSign inner ";" then return c :: (← readCommands inner command steps)
    else if ← takeSign inner "\n" then return c :: (← readCommands inner command steps)
    else return [c]

/-- The readers at a depth. -/
def innerAt : (depth : Nat) → Inner
  | 0 => { commands := throw .tooDeep, pieces := fun _ => throw .tooDeep }
  | depth + 1 =>
    { commands := do
        let inner := innerAt depth
        let command : Read Command := readCommand inner (readCommand inner (throw .tooDeep))
        match ← readCommands inner command (← steps) with
        | [c] => return c
        | cs => return .sequence cs
      pieces := fun m => do readPieces (innerAt depth) m (← steps) [] }

/-- How deep commands can stand inside each other. -/
def depthLimit : Nat := 400

/-- The commands of one line, up to its end. -/
def readLine (inner : Inner) (command : Read Command) : (steps : Nat) → Read (List Command)
  | 0 => throw .tooDeep
  | steps + 1 => do
    let c ← readList inner command
    if ← takeSign inner "&" then
      let c := Command.background c
      if ← takeSign inner "\n" then return [c]
      match ← peek inner with
      | .finish => return [c]
      | _ => return c :: (← readLine inner command steps)
    else if ← takeSign inner ";" then
      if ← takeSign inner "\n" then return [c]
      match ← peek inner with
      | .finish => return [c]
      | _ => return c :: (← readLine inner command steps)
    else if ← takeSign inner "\n" then return [c]
    else
      match ← peek inner with
      | .finish => return [c]
      | _ => unexpected inner none

/-- The next complete command of a script, or nothing at its end. -/
def nextCommand : Read (Option Command) := do
  let inner := innerAt depthLimit
  newLines inner
  match ← peek inner with
  | .finish => return none
  | _ =>
    let command : Read Command := readCommand inner (readCommand inner (throw .tooDeep))
    match ← readLine inner command (← steps) with
    | [c] => return some c
    | cs => return some (.sequence cs)

end Unnest.Host.Shell
