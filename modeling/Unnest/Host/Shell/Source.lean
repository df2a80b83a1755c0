import Unnest.Host.Escape
import Unnest.Host.Shell.Command

/-!
# The text of a script

A script is read from left to right, one character after the other.  What has been read
is gone from the `Source`; the texts of documents that follow a line are put aside when
the line ends.  A reader that has to know what comes next looks at a whole token, which
stays until it is taken.
-/

namespace Unnest.Host.Shell

/-- Why a script could not be read. -/
inductive SourceFault where
  /-- A token that stands where it must not. -/
  | unexpected (token : String) (expected? : Option String)
  /-- A quote that is not closed. -/
  | openQuote (quote : Char)
  | openBrace
  | openExpression
  | badLoopName (name : String)
  | badFunctionName (name : String)
  | tooDeep
  deriving Repr, Inhabited

/-- A word or a sign of a script. -/
inductive Token where
  | word (w : Word)
  | sign (s : String)
  /-- A number right before a redirection. -/
  | descriptor (n : Nat)
  /-- The name of a variable for the number of a descriptor. -/
  | named (name : String)
  | finish
  deriving Inhabited

/-- A document whose text follows the line. -/
structure PendingDocument where
  number : Nat
  delimiter : String
  isLiteral : Bool
  stripsTabs : Bool

/-- A script that is being read. -/
structure Source where
  dialect : Dialect := .plain
  rest : List Char
  line : Nat := 1
  documents : Array Word := #[]
  pending : List PendingDocument := []
  /-- The next token, if it was looked at, and what follows it. -/
  ahead? : Option (Token × List Char × Nat) := none
  /-- Other texts for the names of commands. -/
  aliases : List (String × String) := []
  /-- The aliases in use at the place that is being read. -/
  usedAliases : List String := []
  deriving Inhabited

/-- A reader of scripts. -/
abbrev Read := ExceptT SourceFault (StateM Source)

namespace Read

def rest : Read (List Char) := return (← get).rest

def isRich : Read Bool := return (← get).dialect == .rich

def setRest (cs : List Char) : Read Unit := modify fun s => { s with rest := cs }

/-- Goes on behind characters, among which lines may end. -/
def skip (count : Nat) : Read Unit :=
  modify fun s =>
    { s with rest := s.rest.drop count, line := s.line + ((s.rest.take count).filter (· == '\n')).length }

/-- Reads on a text of its own, and comes back. -/
def within {α : Type} (text : List Char) (reader : Read α) : Read α := do
  let s ← get
  set { s with rest := text, ahead? := none, pending := [] }
  let a ← reader
  let t ← get
  set { s with documents := t.documents }
  return a

end Read

/-! ## Characters -/

/-- The characters that end a word. -/
def isMeta (c : Char) : Bool := " \t\n;&|<>()".toList.contains c

def isNameStart (c : Char) : Bool := c.isAlpha || c = '_'

def isNameRest (c : Char) : Bool := c.isAlphanum || c = '_'

/-- Whether a text can be the name of a variable. -/
def isName (s : String) : Bool :=
  match s.toList with
  | [] => false
  | c :: cs => isNameStart c && cs.all isNameRest

/-- The parameters whose name is one sign. -/
def isSpecial (c : Char) : Bool := "@*#?-$!".toList.contains c

/-- How a text between two ends is read. -/
structure Manner where
  /-- Whether all of it stands between double quotes. -/
  isQuoted : Bool
  /-- Where it ends; the end itself is not read. -/
  ends : List Char → Bool
  /-- Whether it has to end before the script does, and the fault if it does not. -/
  unless? : Option SourceFault := none
  /-- Whether single and double quotes mean something. -/
  hasSingle : Bool
  hasDouble : Bool
  /-- Whether double quotes are passed over. -/
  dropsDouble : Bool := false
  /-- The characters that a backslash hides between double quotes. -/
  hidden : List Char := ['$', '\x60', '"', '\\']
  /-- Whether groups in parentheses can follow the signs of patterns. -/
  hasGroups : Bool := false

namespace Manner

/-- Outside of quotes, up to the end of the word. -/
def bare (isRich : Bool) : Manner :=
  { isQuoted := false, ends := fun cs => cs.head?.any isMeta, hasSingle := true, hasDouble := true
    hasGroups := isRich }

/-- Between double quotes. -/
def double : Manner :=
  { isQuoted := true, ends := fun cs => cs.head? == some '"', unless? := some (.openQuote '"')
    hasSingle := false, hasDouble := false }

/-- The text of a document. -/
def document : Manner :=
  { isQuoted := true, ends := fun _ => false, hasSingle := false, hasDouble := false
    hidden := ['$', '\x60', '\\'] }

/-- Between braces. -/
def braced (isQuoted : Bool) : Manner :=
  { isQuoted, ends := fun cs => cs.head? == some '\x7d', unless? := some .openBrace
    hasSingle := !isQuoted, hasDouble := true, hidden := ['$', '\x60', '"', '\\', '\x7d'] }

end Manner

/-- The readers that words and commands need of each other, one level further in. -/
structure Inner where
  /-- Reads commands up to what cannot start one. -/
  commands : Read Command
  /-- Reads parts of a word. -/
  pieces : Manner → Read Word

/-! ## Parts of words -/

/-- Adds a character to the text at the end of the parts, which are in reverse order. -/
def addText (c : Char) : List Piece → List Piece
  | .text s :: ps => .text (s.push c) :: ps
  | ps => .text c.toString :: ps

/-- Adds a quoted text to the end of the parts. -/
def addQuoted (t : String) : List Piece → List Piece
  | .quoted s :: ps => .quoted (s ++ t) :: ps
  | ps => .quoted t :: ps

/-- The digits, letters or sign that name a parameter, if there are any. -/
def parameterName (cs : List Char) : Option (String × List Char) :=
  match cs with
  | c :: rest =>
    if isNameStart c then
      some (String.ofList (cs.takeWhile isNameRest), cs.dropWhile isNameRest)
    else if c.isDigit then some (c.toString, rest)
    else if isSpecial c then some (c.toString, rest)
    else none
  | [] => none

/-- The name of a parameter between braces, where numbers can be long. -/
def bracedName (cs : List Char) : Option (String × List Char) :=
  match cs with
  | c :: _ =>
    if c.isDigit then
      some (String.ofList (cs.takeWhile Char.isDigit), cs.dropWhile Char.isDigit)
    else parameterName cs
  | [] => none

/-- Reads a script in parentheses whose first one was read: its text. -/
def readParenthesized (inner : Inner) : Read String := do
  let s ← get
  set { s with pending := [], ahead? := none }
  let _ ← inner.commands
  let t ← get
  let (token, after, line) := t.ahead?.getD (.finish, t.rest, t.line)
  match token with
  | .sign ")" =>
    set { t with rest := after, line, ahead? := none, pending := s.pending }
    let length := s.rest.length - after.length - 1
    return String.ofList (s.rest.take length)
  | .sign sign => throw (.unexpected ("\"" ++ sign ++ "\"") (some ")"))
  | .word w => throw (.unexpected ((Word.literal? w).elim "word" fun s => "\"" ++ s ++ "\"") (some ")"))
  | _ => throw (.unexpected "end of file" (some ")"))

/-- The script between back quotes: up to the next one, without the backslashes that
hide characters from this reading. -/
def backQuoted (isQuoted : Bool) : List Char → Option (List Char × List Char)
  | [] => none
  | '\x60' :: cs => some ([], cs)
  | '\\' :: c :: cs =>
    (backQuoted isQuoted cs).map fun (text, rest) =>
      if ['\\', '$', '\x60'].contains c || (isQuoted && c = '"') then (c :: text, rest)
      else ('\\' :: c :: text, rest)
  | c :: cs => (backQuoted isQuoted cs).map fun (text, rest) => (c :: text, rest)

/-- The end of an expression: how many parentheses deep it goes on, and whether it was
closed by two of them. -/
def arithmeticManner (isRich : Bool) (ends : List Char → Bool) : Manner :=
  { isQuoted := true, ends, hasSingle := false, hasDouble := false, dropsDouble := isRich
    hidden := ['$', '\x60', '"', '\\'] }

/-- Reads an expression up to two parentheses that close it; `none` if it does not end
so. -/
def readExpression (inner : Inner) : (steps depth : Nat) → Word → Read (Option Word)
  | 0, _, _ => throw .tooDeep
  | steps + 1, depth, before => do
    let isRich ← Read.isRich
    let w ← inner.pieces (arithmeticManner isRich fun cs => cs.head?.any fun c => c = '(' || c = ')')
    let before := before ++ w
    match ← Read.rest with
    | '(' :: _ => do
      Read.skip 1
      readExpression inner steps (depth + 1) (before ++ [.text "("])
    | ')' :: rest =>
      if depth = 0 then
        match rest with
        | ')' :: _ => Read.skip 2; return some before
        | _ => return none
      else do
        Read.skip 1
        readExpression inner steps (depth - 1) (before ++ [.text ")"])
    | _ => return none

/-- Reads the rest of an operation on a parameter, up to the brace that closes it. -/
def readOperation (inner : Inner) (isQuoted : Bool) : Read Operation := do
  let isRich ← Read.isRich
  let word : Read Word := inner.pieces (Manner.braced isQuoted)
  -- what is compared with a value is quoted on its own
  let pattern : Read Word := inner.pieces (Manner.braced false)
  match ← Read.rest with
  | '\x7d' :: _ => return .value
  | ':' :: c :: _ =>
    if c = '-' then Read.skip 2; return .fallback true (← word)
    else if c = '=' then Read.skip 2; return .assign true (← word)
    else if c = '?' then Read.skip 2; return .require true (← word)
    else if c = '+' then Read.skip 2; return .alternative true (← word)
    else if isRich then
      Read.skip 1
      let part : Manner :=
        { Manner.braced true with ends := fun cs => cs.head?.any fun c => c = '\x7d' || c = ':' }
      let offset ← inner.pieces part
      match ← Read.rest with
      | ':' :: _ => Read.skip 1; return .slice offset (some (← inner.pieces (Manner.braced true)))
      | _ => return .slice offset none
    else return .bad
  | '-' :: _ => Read.skip 1; return .fallback false (← word)
  | '=' :: _ => Read.skip 1; return .assign false (← word)
  | '?' :: _ => Read.skip 1; return .require false (← word)
  | '+' :: _ => Read.skip 1; return .alternative false (← word)
  | '#' :: '#' :: _ => Read.skip 2; return .removeStart true (← pattern)
  | '#' :: _ => Read.skip 1; return .removeStart false (← pattern)
  | '%' :: '%' :: _ => Read.skip 2; return .removeEnd true (← pattern)
  | '%' :: _ => Read.skip 1; return .removeEnd false (← pattern)
  | '/' :: cs =>
    if !isRich then return .bad
    let where? :=
      match cs with
      | '/' :: _ => some '/'
      | '#' :: _ => some '#'
      | '%' :: _ => some '%'
      | _ => none
    Read.skip (if where?.isSome then 2 else 1)
    let part : Manner :=
      { Manner.braced false with ends := fun cs => cs.head?.any fun c => c = '\x7d' || c = '/' }
    let old ← inner.pieces part
    match ← Read.rest with
    | '/' :: _ => Read.skip 1; return .replace where? old (← inner.pieces (Manner.braced isQuoted))
    | _ => return .replace where? old []
  | '^' :: cs =>
    if !isRich then return .bad
    let isAll := cs.head? == some '^'
    Read.skip (if isAll then 2 else 1)
    return .changeCase true isAll (← pattern)
  | ',' :: cs =>
    if !isRich then return .bad
    let isAll := cs.head? == some ','
    Read.skip (if isAll then 2 else 1)
    return .changeCase false isAll (← pattern)
  | '@' :: c :: '\x7d' :: _ =>
    if !isRich then return .bad
    Read.skip 2
    return .transform c
  | _ => return .bad

/-- Reads a parameter between braces whose first one was read. -/
def readBraced (inner : Inner) (isQuoted : Bool) : Read Piece := do
  let isRich ← Read.isRich
  let close : Read Unit := do
    match ← Read.rest with
    | '\x7d' :: _ => Read.skip 1
    | _ =>
      -- what is left of a bad operation is passed over
      let _ ← inner.pieces (Manner.braced isQuoted)
      match ← Read.rest with
      | '\x7d' :: _ => Read.skip 1
      | _ => throw .openBrace
  let subscript : Read (Option Word) := do
    match isRich, ← Read.rest with
    | true, '[' :: _ => do
      Read.skip 1
      let part : Manner :=
        { Manner.braced false with ends := fun cs => cs.head? == some ']' }
      let w ← inner.pieces part
      Read.skip 1
      return some w
    | _, _ => return none
  let named (isIndirect : Bool) : Read Piece := do
    match bracedName (← Read.rest) with
    | none => do
      close
      return .parameter "" none false .bad isQuoted
    | some (name, rest) => do
      Read.setRest rest
      let index ← if isName name then subscript else pure none
      match isIndirect, ← Read.rest with
      | true, '*' :: '\x7d' :: _ => do
        Read.skip 2
        return .parameter name none false (.names true) isQuoted
      | true, '@' :: '\x7d' :: _ => do
        Read.skip 2
        return .parameter name none false (.names false) isQuoted
      | _, _ =>
        let operation ← readOperation inner isQuoted
        close
        return .parameter name index isIndirect operation isQuoted
  match ← Read.rest with
  | '#' :: '\x7d' :: _ => do
    Read.skip 2
    return .parameter "#" none false .value isQuoted
  | '#' :: cs =>
    match bracedName cs with
    | none => named false
    | some (name, rest) =>
      -- a length, unless an operation follows, which then is one on the count
      let isLength :=
        match rest with
        | '\x7d' :: _ => true
        | '[' :: _ => isRich && isName name
        | _ => false
      if isLength then do
        Read.setRest rest
        let index ← subscript
        close
        return .parameter name index false .length isQuoted
      else named false
  | '!' :: cs =>
    if isRich && (cs.head?.any fun c => isNameStart c || c.isDigit || (isSpecial c && cs[1]? == some '\x7d')) then do
      Read.skip 1
      named true
    else named false
  | _ => named false

/-- Reads what follows a dollar sign; `none` if it only means itself. -/
def readDollar (inner : Inner) (isQuoted : Bool) : Read (Option Piece) := do
  let cs ← Read.rest
  match cs with
  | '(' :: '(' :: _ => do
    let s ← get
    Read.skip 2
    match ← readExpression inner (cs.length + 1) 0 [] with
    | some w => return some (.arithmetic w isQuoted)
    | none => do
      -- only the rich shell takes it for a script in two pairs of parentheses
      if !(← Read.isRich) then throw .openExpression
      set s
      Read.skip 1
      return some (.output (← readParenthesized inner) isQuoted)
  | '(' :: _ => do
    Read.skip 1
    return some (.output (← readParenthesized inner) isQuoted)
  | '\x7b' :: _ => do
    Read.skip 1
    return some (← readBraced inner isQuoted)
  | cs =>
    match parameterName cs with
    | some (name, rest) => do
      Read.setRest rest
      return some (.parameter name none false .value isQuoted)
    | none => return none

/-- The end of a group in parentheses that follows the sign of a pattern. -/
def groupLength : (depth : Nat) → List Char → Option Nat
  | _, [] => none
  | depth, '\\' :: _ :: cs => (groupLength depth cs).map (· + 2)
  | depth, '(' :: cs => (groupLength (depth + 1) cs).map (· + 1)
  | 0, ')' :: _ => some 1
  | depth + 1, ')' :: cs => (groupLength depth cs).map (· + 1)
  | depth, _ :: cs => (groupLength depth cs).map (· + 1)

/-- How long a text with escapes is, up to the quote that ends it. -/
def escapedLength : List Char → Nat
  | [] => 0
  | '\\' :: _ :: cs => escapedLength cs + 2
  | '\x27' :: _ => 0
  | _ :: cs => escapedLength cs + 1

/-- The escapes between single quotes behind a dollar sign. -/
def quotedEscapes : EscapeRules := { hasHex := true, hidden := ['\\', '"', '\x27', '?'] }

/-- Reads parts of a word, one character or part at a time. -/
def readPieces (inner : Inner) (m : Manner) : (steps : Nat) → List Piece → Read Word
  | 0, ps => return ps.reverse
  | steps + 1, ps => do
    let goOn (ps : List Piece) : Read Word := readPieces inner m steps ps
    let cs ← Read.rest
    if m.ends cs then return ps.reverse
    match cs with
    | [] =>
      match m.unless? with
      | some f => throw f
      | none => return ps.reverse
    | '\\' :: '\n' :: _ => do
      Read.skip 2
      goOn ps
    | '\\' :: c :: _ => do
      Read.skip 2
      if !m.isQuoted || m.hidden.contains c then goOn (addQuoted c.toString ps)
      else goOn (addQuoted ("\\" ++ c.toString) ps)
    | '\x27' :: rest =>
      if m.hasSingle then do
        let text := rest.takeWhile (· != '\x27')
        if text.length = rest.length then throw (.openQuote '\x27')
        Read.skip (text.length + 2)
        goOn (addQuoted (String.ofList text) ps)
      else do
        Read.skip 1
        goOn (if m.isQuoted then addQuoted "'" ps else addText '\x27' ps)
    | '"' :: _ => do
      Read.skip 1
      if m.dropsDouble then goOn ps
      else if m.hasDouble then
        if m.isQuoted then goOn (addQuoted "" ps)
        else do
          let w ← inner.pieces Manner.double
          Read.skip 1
          if w.isEmpty then goOn (addQuoted "" ps)
          else
            match w with
            | .quoted s :: w => goOn (w.reverse ++ addQuoted s ps)
            | w => goOn (w.reverse ++ ps)
      else goOn (if m.isQuoted then addQuoted "\"" ps else addText '"' ps)
    | '\x60' :: rest =>
      match backQuoted m.isQuoted rest with
      | none => throw (.openQuote '\x60')
      | some (script, after) => do
        Read.skip (cs.length - after.length)
        Read.within script do
          let _ ← inner.commands
          match (← get).ahead? with
          | some (.finish, _) | none => return
          | some (.sign sign, _) => throw (.unexpected ("\"" ++ sign ++ "\"") none)
          | some _ => throw (.unexpected "word" none)
        goOn (.output (String.ofList script) m.isQuoted :: ps)
    | '$' :: rest => do
      let isRich ← Read.isRich
      match rest, isRich && !m.isQuoted with
      | '\x27' :: text, true => do
        let length := escapedLength text
        if length = text.length then throw (.openQuote '\x27')
        Read.skip (length + 3)
        goOn (addQuoted (quotedEscapes.read (String.ofList (text.take length))).1 ps)
      | '"' :: _, true => do
        Read.skip 1
        goOn ps
      | _, _ =>
        Read.skip 1
        match ← readDollar inner m.isQuoted with
        | some p => goOn (p :: ps)
        | none => goOn (if m.isQuoted then addQuoted "$" ps else addText '$' ps)
    | c :: rest =>
      if m.hasGroups && "?*+@!".toList.contains c && rest.head? == some '(' then
        match groupLength 0 rest.tail with
        | some length => do
          Read.skip 2
          let text := rest.tail.take (length - 1)
          let w ← Read.within text (inner.pieces { m with ends := fun _ => false, hasGroups := true })
          Read.skip length
          goOn (addText ')' (w.reverse ++ addText '(' (addText c ps)))
        | none => do
          Read.skip 1
          goOn (addText c ps)
      else do
        Read.skip 1
        goOn (if m.isQuoted then addQuoted c.toString ps else addText c ps)

end Unnest.Host.Shell
